import CodeAtlas.Text.Search

/-!
# Instructions for the inference of a schema

The text that asks a model for a schema: the shape of the answer, rules, and two examples.
-/

namespace CodeAtlas.Enrichment

def role : String :=
  "You are an expert code analysis tool. Return ONLY valid JSON. Do not include code fences."

def instructionLines : List String :=
  ["You are an expert software architect and UML diagram generator. Given a codebase or a natural language prompt describing a system, produce ONLY valid JSON (no markdown fences, no prose) matching this schema:",
    "",
    "\x7b",
    "    \"python\": [\x7b\"class\": \"Name\", \"fields\": [\"f1: Type\"], \"methods\": [\"m1\", \"m2\"], \"stereotype\": \"class|interface|abstract\", \"abstract\": false, \"package\": \"module.path\"\x7d],",
    "    \"java\": [\x7b\"class\": \"Name\", \"fields\": [\"f1: Type\"], \"methods\": [\"m1\", \"m2\"], \"stereotype\": \"class|interface|abstract\", \"abstract\": false, \"package\": \"com.example\"\x7d],",
    "    \"csharp\": [\x7b\"class\": \"Name\", \"fields\": [\"f1: Type\"], \"methods\": [\"m1\", \"m2\"], \"stereotype\": \"class|interface|abstract\", \"abstract\": false, \"namespace\": \"Namespace\"\x7d],",
    "    \"javascript\": [\x7b\"class\": \"Name\", \"fields\": [\"f1: Type\"], \"methods\": [\"m1\", \"m2\"], \"stereotype\": \"class\", \"abstract\": false\x7d],",
    "    \"typescript\": [\x7b\"class\": \"Name\", \"fields\": [\"f1: Type\"], \"methods\": [\"m1\", \"m2\"], \"stereotype\": \"class|interface\", \"abstract\": false\x7d],",
    "    \"cpp\": [\x7b\"class\": \"Name\", \"fields\": [\"f1: Type\"], \"methods\": [\"m1\", \"m2\"], \"stereotype\": \"class|struct\", \"abstract\": false\x7d],",
    "    \"c\": [\x7b\"class\": \"Name\", \"fields\": [\"f1: Type\"], \"methods\": [\"m1\", \"m2\"], \"stereotype\": \"struct\", \"abstract\": false\x7d],",
    "    \"relations\": [\x7b\"from\": \"ClassA\", \"to\": \"ClassB\", \"type\": \"extends|implements|uses|composition|aggregation|dependency|association\", \"source\": \"heuristic|ai\"\x7d],",
    "    \"endpoints\": [\x7b\"method\": \"GET\", \"path\": \"/resource\", \"controller\": \"ControllerName\", \"layer\": \"presentation|business|data\", \"returns\": \"ResponseType\", \"description\": \"Purpose\"\x7d],",
    "    \"usecases\": [\x7b\"name\": \"Use Case\", \"actor\": \"Primary Actor\", \"supportingActors\": [\"Secondary\"], \"goal\": \"Business outcome\", \"system\": \"System/Subsystem\", \"includes\": [\"Another Use Case\"], \"extends\": [\"Extended Use Case\"], \"summary\": \"Key steps\"\x7d],",
    "    \"sequence_flows\": [\x7b\"from\": \"Actor/System\", \"to\": \"Component\", \"message\": \"Action\", \"response\": \"Result\", \"type\": \"sync|async\", \"note\": \"Important detail\"\x7d],",
    "    \"activity\": [\x7b\"step\": \"Action\", \"role\": \"Role\", \"class\": \"ClassName\", \"next\": [\"Next Step\"], \"condition\": \"Guard/Decision\"\x7d],",
    "    \"states\": [\x7b\"context\": \"ClassOrAggregate\", \"states\": [\"State1\", \"State2\"], \"transitions\": [\x7b\"from\": \"State1\", \"to\": \"State2\", \"trigger\": \"Event\"\x7d]\x7d],",
    "    \"patterns\": [\x7b\"type\": \"singleton|factory|observer|strategy|decorator\", \"classes\": [\"Class1\", \"Class2\"]\x7d],",
    "    \"layers\": [\x7b\"name\": \"presentation|business|data\", \"classes\": [\"Class1\", \"Class2\"]\x7d],",
    "    \"meta\": \x7b\"system\": \"SystemName\", \"assumptions\": [\"Item\"], \"notes\": [\"Important observation\"]\x7d",
    "\x7d",
    "",
    "INSTRUCTIONS:",
    "1. If given a natural language prompt, infer classes, fields, methods, relationships, and behaviors as if designing the system from scratch. Use professional naming and architecture.",
    "2. Always include ALL classes described or implied, even if they appear peripheral.",
    "3. Fields must include type information when available (e.g., \"name: String\", \"age: int\").",
    "4. Methods should be plain method names only (no parentheses or parameters).",
    "5. Stereotypes: use \"interface\" for interfaces, \"abstract\" for abstract classes, \"class\" for concrete classes; mark \"abstract\": true when appropriate.",
    "6. Relations: use \"extends\" for inheritance, \"implements\" for interface implementation, \"composition\" for strong ownership, \"aggregation\" for weak ownership, \"uses\" for method-level collaborations, \"dependency\" for imports/references, and \"association\" as the safest fallback.",
    "7. Populate \"endpoints\" for each HTTP/API/service interface. Include method, path/topic, owning controller/service, architectural layer, return type, and short description.",
    "8. Populate \"usecases\" with actor-driven goals. Provide actor (or actors), goal, system/boundary, and any includes/extends relationships. Summaries should reflect key happy-path behavior.",
    "9. Populate \"sequence_flows\" describing runtime interactions from a primary scenario. Include from/to participants, message, optional response, whether the call is sync/async, and an explanatory note when useful.",
    "10. Populate \"activity\" with ordered steps or decision points. Each item should include a step label, role or component handling it, optional implementation class, and the next step(s) with guard conditions.",
    "11. Populate \"states\" for any entity or aggregate that exhibits a lifecycle. Provide the state names and transitions with triggers or events.",
    "12. Add \"patterns\" array for detected design patterns (e.g., singleton, factory, observer) with the participating classes.",
    "13. Add \"layers\" array for architectural layering (presentation/controllers/views, business/services/managers, data/models/repositories).",
    "14. Provide \"meta\" details including the inferred system name plus assumptions or constraints you relied on to complete the diagram.",
    "15. Cross-language relationships should be captured when components interact across technology boundaries.",
    "16. Do not include any prose, explanations, or markdown fences—return ONLY valid JSON.",
    "17. Think step-by-step like a senior software architect to ensure completeness and internal consistency.",
    "",
    "EXAMPLES:",
    "Prompt: \"A library system with books, members, and loans. Members can borrow books.\"",
    "Output:",
    "\x7b",
    "    \"python\": [",
    "        \x7b\"class\": \"Book\", \"fields\": [\"title: String\", \"author: String\", \"isbn: String\"], \"methods\": [\"borrow\", \"return\"], \"stereotype\": \"class\", \"abstract\": false, \"package\": \"library\"\x7d,",
    "        \x7b\"class\": \"Member\", \"fields\": [\"name: String\", \"memberId: String\"], \"methods\": [\"borrowBook\", \"returnBook\"], \"stereotype\": \"class\", \"abstract\": false, \"package\": \"library\"\x7d,",
    "        \x7b\"class\": \"Loan\", \"fields\": [\"book: Book\", \"member: Member\", \"dueDate: Date\"], \"methods\": [\"renew\", \"close\"], \"stereotype\": \"class\", \"abstract\": false, \"package\": \"library\"\x7d",
    "    ],",
    "    \"relations\": [",
    "        \x7b\"from\": \"Member\", \"to\": \"Book\", \"type\": \"uses\", \"source\": \"ai\"\x7d,",
    "        \x7b\"from\": \"Loan\", \"to\": \"Book\", \"type\": \"composition\", \"source\": \"ai\"\x7d,",
    "        \x7b\"from\": \"Loan\", \"to\": \"Member\", \"type\": \"composition\", \"source\": \"ai\"\x7d",
    "    ],",
    "    \"endpoints\": [",
    "        \x7b\"method\": \"POST\", \"path\": \"/loans\", \"controller\": \"LoanController\", \"layer\": \"presentation\", \"returns\": \"Loan\", \"description\": \"Create a new loan\"\x7d",
    "    ],",
    "    \"usecases\": [",
    "        \x7b\"name\": \"Borrow Book\", \"actor\": \"Member\", \"goal\": \"Check out a book\", \"system\": \"LibrarySystem\", \"includes\": [\"Validate Membership\"], \"extends\": []\x7d",
    "    ],",
    "    \"sequence_flows\": [",
    "        \x7b\"from\": \"Member\", \"to\": \"LoanController\", \"message\": \"borrow(bookId)\", \"response\": \"Loan created\", \"type\": \"sync\"\x7d",
    "    ],",
    "    \"activity\": [",
    "        \x7b\"step\": \"Select book\", \"role\": \"Member\", \"next\": [\"Submit loan request\"]\x7d,",
    "        \x7b\"step\": \"Submit loan request\", \"role\": \"Member\", \"next\": [\"Validate membership\"]\x7d",
    "    ],",
    "    \"states\": [",
    "        \x7b\"context\": \"Loan\", \"states\": [\"Requested\", \"Active\", \"Returned\"], \"transitions\": [\x7b\"from\": \"Requested\", \"to\": \"Active\", \"trigger\": \"Approval\"\x7d]\x7d",
    "    ]",
    "\x7d",
    "",
    "Prompt: \"An e-commerce platform with products, customers, orders, and payment processing.\"",
    "Output:",
    "\x7b",
    "    \"python\": [",
    "        \x7b\"class\": \"Product\", \"fields\": [\"name: String\", \"price: Float\", \"sku: String\"], \"methods\": [\"updateStock\"], \"stereotype\": \"class\", \"abstract\": false, \"package\": \"shop\"\x7d,",
    "        \x7b\"class\": \"Customer\", \"fields\": [\"name: String\", \"email: String\"], \"methods\": [\"placeOrder\"], \"stereotype\": \"class\", \"abstract\": false, \"package\": \"shop\"\x7d,",
    "        \x7b\"class\": \"Order\", \"fields\": [\"customer: Customer\", \"items: List[OrderItem]\", \"total: Decimal\"], \"methods\": [\"addItem\", \"checkout\"], \"stereotype\": \"class\", \"abstract\": false, \"package\": \"shop\"\x7d,",
    "        \x7b\"class\": \"PaymentProcessor\", \"fields\": [\"provider: String\"], \"methods\": [\"processPayment\"], \"stereotype\": \"class\", \"abstract\": false, \"package\": \"shop\"\x7d",
    "    ],",
    "    \"relations\": [",
    "        \x7b\"from\": \"Order\", \"to\": \"Product\", \"type\": \"aggregation\", \"source\": \"ai\"\x7d,",
    "        \x7b\"from\": \"Order\", \"to\": \"Customer\", \"type\": \"association\", \"source\": \"ai\"\x7d,",
    "        \x7b\"from\": \"Order\", \"to\": \"PaymentProcessor\", \"type\": \"uses\", \"source\": \"ai\"\x7d",
    "    ],",
    "    \"endpoints\": [",
    "        \x7b\"method\": \"POST\", \"path\": \"/orders\", \"controller\": \"OrderController\", \"layer\": \"presentation\", \"returns\": \"Order\", \"description\": \"Create a new order\"\x7d,",
    "        \x7b\"method\": \"POST\", \"path\": \"/payments\", \"controller\": \"PaymentController\", \"layer\": \"business\", \"returns\": \"PaymentResult\", \"description\": \"Capture payment\"\x7d",
    "    ],",
    "    \"usecases\": [",
    "        \x7b\"name\": \"Place Order\", \"actor\": \"Customer\", \"goal\": \"Purchase products\", \"system\": \"ECommercePlatform\", \"includes\": [\"Process Payment\"], \"extends\": []\x7d",
    "    ],",
    "    \"sequence_flows\": [",
    "        \x7b\"from\": \"Customer\", \"to\": \"OrderController\", \"message\": \"checkout(cart)\", \"response\": \"OrderConfirmation\", \"type\": \"sync\", \"note\": \"Validates inventory before payment\"\x7d",
    "    ],",
    "    \"activity\": [",
    "        \x7b\"step\": \"Browse catalog\", \"role\": \"Customer\", \"next\": [\"Add item to cart\"]\x7d,",
    "        \x7b\"step\": \"Add item to cart\", \"role\": \"Customer\", \"next\": [\"Checkout\"]\x7d",
    "    ],",
    "    \"states\": [",
    "        \x7b\"context\": \"Order\", \"states\": [\"Draft\", \"PendingPayment\", \"Paid\", \"Shipped\"], \"transitions\": [\x7b\"from\": \"PendingPayment\", \"to\": \"Paid\", \"trigger\": \"PaymentSuccess\"\x7d]\x7d",
    "    ]",
    "\x7d",
    ""]

def instructions : String := Text.join "\n" instructionLines

end CodeAtlas.Enrichment

import CodeAtlas.Drafting.Mermaid
import CodeAtlas.Settings.Tables
import CodeAtlas.Benchmark.Measure
import CodeAtlas.Benchmark.Trial
import CodeAtlas.Workload.Run
import CodeAtlas.Proofs.Analysis.Session
import CodeAtlas.Proofs.Client.Recency
import CodeAtlas.Proofs.Client.Retries
import CodeAtlas.Proofs.Diagram.ClassBlocks
import CodeAtlas.Proofs.Diagram.ComponentScope
import CodeAtlas.Proofs.Diagram.Generalization
import CodeAtlas.Proofs.Diagram.Identifiers
import CodeAtlas.Proofs.Drafting.Coherence
import CodeAtlas.Proofs.Drafting.Fence
import CodeAtlas.Proofs.Enrichment.Idempotence
import CodeAtlas.Proofs.Language.CppComments
import CodeAtlas.Proofs.Language.TypeScriptHeaders
import CodeAtlas.Proofs.Language.JavaOwnership
import CodeAtlas.Proofs.Language.MatchedBraces
import CodeAtlas.Proofs.Relations.Compositions
import CodeAtlas.Proofs.Repository.Confinement
import CodeAtlas.Proofs.Advice.Suggestions
import CodeAtlas.Proofs.Value.Canonical
import CodeAtlas.Proofs.Analysis.LanguageTables
import CodeAtlas.Proofs.Diagram.Participants
import CodeAtlas.Proofs.Diagram.Warnings
import CodeAtlas.Proofs.Enrichment.Totality
import CodeAtlas.Proofs.Repository.Addresses
import CodeAtlas.Proofs.Repository.PrintedHistory
import CodeAtlas.Proofs.Analysis.DefinitionOrder
import CodeAtlas.Proofs.Language.CSharpHeaders

import CodeAtlas.Text.CharSet

/-!
# Compatibility decompositions, combining classes and compositions

The tables behind the compatibility composition of identifiers. Runs and expansions are written as in the case tables.
An entry of `classes` is a combining class with its ranges, and one of `pairs` a second part with the ranges of the
characters that it is part of.
-/

namespace CodeAtlas.ComposeTable

def decomposeRuns : String :=
  ")>ZE:+rZ4/$z$74/=v86/=vB4/=P:k6;<f%44;_lQ6/?F&&34;<x1A;,T24;=B2I;=D1e;:hL8;=l84;<j$_<U4(;.b?AI(?(n8o(?(n7o(?(nhA&_*D58
  &_)t3A&_)nC4(.^j1A(.;F24(.^x2I(.^z4A(.>Z3A(.>d3A(.>h34(.>l$:Q4(|!J$|&Uo,>|h1o,>|V1o,?!N1C,?!B2Y,?!B1o,?%31o,?$rE6,?&j2
  E,?&j16,?&X4C,?&X2K,?&X1o,?)P1o,?)D46,?+53E,?+52C,?+52o,?*t46,?,l28,?,l6C,?,l2o,?,Z1o,?/R1o,?/F1o,?;71o,?:v1o,?<n1o,?<
  b1o,?>T1o,?>H1o,?^91o,??x1o,?_p1o,?_d5W,>=H2C,>=H2m,>=58W,>?92C,>?92m,>>x8W,>_12C,>_12m,>^p8W,>|t2C,>|t2m,>|h8W,?!l2C,
  ?!l2m,?!ZCI,^.f1I,^.z1I,^/J1I,^/d1I,^/x(+16.%^7T6.%_9$W4.&!FU4.&$H%;lI./=3"

def decomposeExpansions : Expansions where
  codes := "%k0B050$w1C190s0$78b2&38e4$U121m0J0$B231Q22140*Q0&q3:s7%1120$M030Z230(61:i0%40f1$e0A0505050D0A02480I0A0505050D0)D0%,
    K222AH2D4AE0Z8465940&X0&T006$0030B02080808080E020$u0E0H552$e0503920717002232221503364NV%&N1&u0:V2$d0$Y0o5A040WJ6647$
    %!K1&P0%6241<z3A0>)N(L30203902314$53$hd6D46024412C242021212$jY%E7&VJ$13rf9w1P2Y060032%1$50dU73617AA040$:D42f2341$|)y
    0213031L0$B1p1D0)e1K0Z5I0Z5I0Z5I0Z5I0Z7(+h3245H21203020542302705002222120300421203326232320295D62245D%/&J,j"
  lengths := "13251133291H211D2b312131271$G291122312131231U211I21312111213141211121311521312111213141211121311A221,K2332291622322T
    1$M221A221A211C3I14352$R362j352$5322H332$B3$w47311526112C1$g36221<I"
  letters := "aμoIJijL·l·ʼnsDŽDždžLJLjljNJNjnjDZDzdzhɦjrɹɻʁwyɣlsxʕ̀́̓̈́ʹ·βθΥφπκρςΘεΣեւاٴوٴۇٴيٴक़ख़ग़ज़ड़ढ़फ़य़ড়ঢ়য়ਲ਼ਸ਼ਖ਼ਗ਼ਜ਼ਫ
    ਼ଡ଼ଢ଼ําໍາຫນຫມགྷཌྷདྷབྷཛྷཀྵཱཱིུྲྀྲཱྀླྀླཱཱྀྀྒྷྜྷྡྷྦྷྫྷྐྵნAÆBDEƎOȢPRTUWaɐɑᴂbdeəɛɜgkmŋoɔᴖᴗptuᴝɯvᴥφχiruvβγρφχнɒcɕðɜfɟɡɥᵻʝɭ
    ᶅʟɱɰɸʂʃƫʉʊᴜʋʌzθaʾάέήίόύώΆιΈΉΐΊΰΎΌΏinaeoxəhpstCƐgHHHhħIILlNRRZΩZKÅBCeEFMoiπγΓΠDdeijIIIIIIIVVVIVIIV
    IIIIXXXIXIILCDMiiiiiiivvviviiviiiixxxixiilcdmjVⵡ十卄卅よりコトᄀᄁᆪᄂᆬᆭᄚᄡᅠᄔᄕᇇᇈᇌᇎᇓᇗᇙᄜᇝᇟᄝᄞᄠᄢᄣᄧᄩᄲᄶᅀᅇᅌᇱᇲᆄᆅᆈᆑᆒᆔᆞᆡъьꝯCFQĦœꜧꬷɫꭒʍ豈更車賈滑
    串句龜龜契金喇奈懶癩羅蘿螺裸邏樂洛烙珞落酪駱亂卵欄爛蘭鸞嵐濫藍襤拉臘蠟廊朗浪狼郎來冷勞擄櫓爐盧老蘆虜路露魯鷺碌祿綠菉錄鹿論壟弄籠聾牢磊賂雷壘屢樓淚漏累縷陋勒肋凜凌稜綾菱陵讀拏樂諾丹寧怒率異北磻便復不泌數索參塞省葉說殺辰沈拾若掠略亮兩
    凉梁糧良諒量勵呂女廬旅濾礪閭驪麗黎力曆歷轢年憐戀撚漣煉璉秊練聯輦蓮連鍊列劣咽烈裂說廉念捻殮簾獵令囹寧嶺怜玲瑩羚聆鈴零靈領例禮醴隸惡了僚寮尿料樂燎療蓼遼龍暈阮劉杻柳流溜琉留硫紐類六戮陸倫崙淪輪律慄栗率隆利吏履易李梨泥理痢罹裏裡里離匿溺
    吝燐璘藺隣鱗麟林淋臨立笠粒狀炙識什茶刺切度拓糖宅洞暴輻行降見廓兀嗀塚晴凞猪益礼神祥福靖精羽蘒諸逸都飯飼館鶴郞隷侮僧免勉勤卑喝嘆器塀墨層屮悔慨憎懲敏既暑梅海渚漢煮爫琢碑社祉祈祐祖祝禍禎穀突節練縉繁署者臭艹艹著褐視謁謹賓贈辶逸難響頻恵𤋮
    舘並况全侀充冀勇勺喝啕喙嗢塚墳奄奔婢嬨廒廙彩徭惘慎愈憎慠懲戴揄搜摒敖晴朗望杖歹殺流滛滋漢瀞煮瞧爵犯猪瑱甆画瘝瘟益盛直睊着磌窱節类絛練缾者荒華蝹襁覆視調諸請謁諾諭謹變贈輸遲醙鉶陼難靖韛響頋頻鬒龜𢡊𢡄𣏕㮝䀘䀹𥉉𥳐𧻓齃龎fffiflffi
    fflststմնմեմիվնմխיִײַעאדהרתשׁשׂשּׁשּׂאַאָאּבּגּדּהּוּזּטּיּךּכּלּמּנּסּףּפּצּקּרּשּתּוֹבֿכֿפֿאלٱٱٻٻٻٻپپپپڀڀڀڀٺٺٺٺٿٿٿ
    ٿٹٹٹٹڤڤڤڤڦڦڦڦڄڄڄڄڃڃڃڃچچچچڇڇڇڇڍڍڌڌڎڎڈڈژژڑڑککککگگگگڳڳڳڳڱڱڱڱںںڻڻڻڻۀۀہہہہھھھھےےۓۓڭڭڭڭۇۇۆۆۈۈۇٴۋۋۅۅۉۉېېېېىىئائائەئ
    ەئوئوئۇئۇئۆئۆئۈئۈئېئېئېئىئىئىییییئجئحئمئىئيبجبحبخبمبىبيتجتحتختمتىتيثجثمثىثيجحجمحجحمخجخحخمسجسحسخسم
    صحصمضجضحضخضمطحطمظمعجعمغجغمفجفحفخفمفىفيقحقمقىقيكاكجكحكخكلكمكىكيلجلحلخلملىليمجمحمخمممىمينجنحنخنمنىنيهجهمهىهييجيحيخيميى
    ييذٰرٰىٰئرئزئمئنئىئيبربزبمبنبىبيترتزتمتنتىتيثرثزثمثنثىثيفىفيقىقيكاكلكمكىكيلملىليماممنرنزنمنننىنيىٰيريزيمينيىيي
    ئجئحئخئمئهبجبحبخبمبهتجتحتختمتهثمجحجمحجحمخجخمسجسحسخسمصحصخصمضجضحضخضمطحظمعجعمغجغمفجفحفخفمقحقمكجكحكخكلكملجلحلخلملهم
    جمحمخممنجنحنخنمنههجهمهٰيجيحيخيميهئمئهبمبهتمتهثمثهسمسهشمشهكلكملمنمنهيميهـَّـُّـِّطىطيعىعيغىغيسىسيشىشيحىحيجىجيخىخيصى
    صيضىضيشجشحشخشمشرسرصرضرطىطيعىعيغىغيسىسيشىشيحىحيجىجيخىخيصىصيضىضيشجشحشخشمشرسرصرضرشجشحشخشمسهشهطمسجسحسخشجشحشخطمظماًاًتجمت
    حجتحجتحمتخمتمجتمحتمخجمحجمححميحمىسحجسجحسجىسمحسمحسمجسممسممصححصححصممشحمشحمشجيشمخشمخشممشممضحىضخمضخمطمحطمحطممطميعجمعممعمم
    عمىغممغميغمىفخمفخمقمحقمملحملحيلحىلججلججلخملخملمحلمحمحجمحممحيمجحمجممخجمخممجخهمجهممنحمنحىنجمنجمنجىنمينمىيمميممبخيتجيتج
    ىتخيتخىتميتمىجميجحىجمىسخىصحيشحيضحيلجيلمييحييجييميمميقمينحيقمحلحمعميكمينجحمخيلجمكمملجمنجحجحيحجيمجيفميبحيكممعجمصممسخين
    جيصلےقلےاللهاكبرمحمدصلعمرسولعليهوسلمصلى_____ـًـَـُـِـّـْءآآأأؤؤإإئئئئااببببةةتتتتثثثثججججححححخخخخددذذررز
    زسسسسششششصصصصضضضضططططظظظظععععغغغغففففققققككككللللممممننننههههووىىييييلآلآلألألإلإلالا_ヲァィゥェォャュョッーアイウエオカキクケコサシス
    セソタチツテトヒフヘホヤユワン゙゚ᅠᄀᄁᆪᄂᆬᆭᄚᄡːˑæʙɓʣꭦʥʤɖɗᶑɘɞʩɤɢɠʛħʜɧʄʪʫɬ𝼄ꞎɮ𝼅ʎ𝼆øɶɷqɺ𝼈ɽɾʀʨʦꭧʧʈⱱʏʡʢʘ𝼊𝼞ACDGJKfABABOıȷΘεθκφρπΘεθκφρπΘεθκφρπΘε
    θκφρπΘεθκφρπϜϝابجدوزحطيسعفصقرشتثخذضظغٮںڡٯبجهحيسعفصقشتثخضغجحيلنسعصقشخضغںٯبجهحطيكمنسعفصقشتثخضظغٮڡابجدهوزحطيسعفصقرشتثخذ
    ضظغبجدوزحطيسعفصقرشتثخذضظغ丽丸乁𠄢你侮侻倂偺備僧像㒞𠘺免兔兤具𠔜㒹內再𠕋冗冤仌冬况𩇟凵刃㓟刻剆割剷㔕勇勉勤勺包匆北卉卑博即卽卿卿卿𠨬灰及叟𠭣叫叱吆咞吸呈周咢哶唐啓啣善善喙喫喳嗂圖嘆圗噑噴切壮城埴堍型堲報墬𡓤売
    壷夆多夢奢𡚨𡛪姬娛娧姘婦㛮㛼嬈嬾嬾𡧈寃寘寧寳𡬘寿将当尢㞁屠屮峀岍𡷤嵃𡷦嵮嵫嵼巡巢㠯巽帨帽幩㡢𢆃㡼庰庳庶廊𪎒廾𢌱𢌱舁弢弢㣇𣊸𦇚形彫㣣徚忍志忹悁㤺㤜悔𢛔惇慈慌慎慌慺憎憲憤憯懞懲懶成戛扝抱拔捐𢬌挽拼捨掃揤𢯱搢揅掩㨮摩摾撝摷㩬敏敬𣀊旣書晉㬙
    暑㬈㫤冒冕最暜肭䏙朗望朡杞杓𣏃㭉柺枅桒梅𣑭梎栟椔㮝楂榣槪檨𣚣櫛㰘次𣢧歔㱎歲殟殺殻𣪍𡴋𣫺汎𣲼沿泍汧洖派海流浩浸涅𣴞洴港湮㴳滋滇𣻑淹潮𣽞𣾎濆瀹瀞瀛㶖灊災灷炭𠔥煅𤉣熜𤎫爨爵牐𤘈犀犕𤜵𤠔獺王㺬玥㺸㺸瑇瑜瑱璅瓊㼛甤𤰶甾𤲒異𢆟瘐𤾡𤾸𥁄㿼䀈直𥃳𥃲
    𥄙𥄳眞真真睊䀹瞋䁆䂖𥐝硎碌磌䃣𥘦祖𥚚𥛅福秫䄯穀穊穏𥥼𥪧𥪧竮䈂𥮫篆築䈧𥲀糒䊠糨糣紀𥾆絣䌁緇縂繅䌴𦈨𦉇䍙𦋙罺𦌾羕翺者𦓚𦔣聠𦖨聰𣍟䏕育脃䐋脾媵𦞧𦞵𣎓𣎜舁舄辞䑫芑芋芝劳花芳芽苦𦬼若茝荣莭茣莽菧著荓菊菌菜𦰶𦵫𦳕䔫蓱蓳蔖𧏊蕤𦼬䕝䕡𦾱𧃒䕫虐虜虧虩
    蚩蚈蜎蛢蝹蜨蝫螆䗗蟡蠁䗹衠衣𧙧裗裞䘵裺㒻𧢮𧥦䚾䛇誠諭變豕𧲨貫賁贛起𧼯𠠄跋趼跰𠣞軔輸𨗒𨗭邔郱鄑𨜮鄛鈸鋗鋘鉼鏹鐕𨯺開䦕閷𨵷䧦雃嶲霣𩅅𩈚䩮䩶韠𩐊䪲𩒖頋頋頩𩖶飢䬳餩馧駂駾䯎𩬰鬒鱀鳽䳎䳭鵧𪃎䳸𪄅𪈎𪊑麻䵖黹黾鼅鼏鼖鼻𪘀"

def classes : String :=
  "1<E4)!k0E6?A152B141%&_K0|!L4?$C0($p2 6&.+E1
  7$^80%40%40%40%40(80%40=N0%&N0%s0$J0$*^C0~)P0%z0$P0$k0%t0$K1(I0%10(50&z0*F0(H0?V0$|%S0 8.:f1
  9$^P0%40%40%40%40%40%40%40$m1H0%10$o0%40&G0%v1$+I1V0%Y0/Y0&g0$e1$91&.S0$&$v0c0%S0%J0$l0)00&z0_:S0$&t0g0F0w0$y1
  9%:^K0$t0%v0$b0&x0%40(50%40$v0$t0(M0(C1%c0$M0J0$K0*o0(D1$K0 A$%U0 B$%V0 C$%W0 D$%X0 E$%Y0 F$%Z0 G$%a0 H$%b0 I$%c0F0
  J$%d1 K$%f0 L$%g0 M$%h0 N$%j0 O$%l0 P$%m0 Q%++s0 R$(z0/v0 S$)00/v0 T$)10/v0 U$(A0s0 V$(B0s0 W$(C0s0 X$)50 Y$)60 Z$)a0
  a$,B0 $M%,v0 $T%,w0 $f%?i1 $j%?y3 $u%_m1 $y%|23 %5&!l0 %6&!m08330 %8&!o0 &G;v151))40 &S)_40 &U;p0%,20((/m184
  &W)_m0&;60
  &Y;k334333A63B2415331.9050507530R0%K16030%807030$60303221204003%k0B0$U2$02q4G03030427031$Q0$%q1S020%J0&D0$=q0
  &Y)%k0$f0s530213160%c0)p433E0&R08050g04020;1043$)?W2*J0?,Z6>k0&f0$,d0j0%m0_414023p020$^%s781(;56 &a$%80J0&^i0(/m0
  &c..w1 &e(+/l0 &g$%S0&>N0$!u1&;90
  &i;OKf720424250408C(S4(J32235712130L0$E7y13421$w633203131$6021214030220321%b620Z3282224$j043h46D312122722134
  &i$^T021%k0$$m131>q2_Y0)d0&Z0$W7q471513423%X026)d28150K041&D126215a6030:e1334150602070%+X2&rV$%=I059X1$J1+zH
  &i$;:m021416120?,F681$!n4$*B0f0%n0.H3*G1%W220s020*82.s644&m0^$U6~%R4X3%P2%=i62G362124(E6*40$03$)95 &k;j050$00)(u0&;C0
  &l<s03030)(q0 &m<t121)(60 &s<V0"

def pairs : String :=
  ";O&60804060707080406070&e1S1,N0D0$50D0)$B1x1l1b191F1H191D171F1717171717171717171718071715006$00E0203050803050
  ;O*)m030B020
  ;P&70804060703040804060703091o191G151U1$V1S155*I1222022S4S250m090$9090)$01D1N3D1D153Z191X191F1H191D1R171717171
  ;P*%i17171717171807171$Z0G0 ;Q&80804060707080406070D1J171F1d1N3)>91R1P1H1 ;R&90E040E0E040p1$11)>31j1917171H191D191
  ;S(81H1N1X1T1$i18591z333:51B1(~11N1Z1)U080O0808080 ;U(A1H191D1X1T1/r0B0W0b0$b1E151(~L1%T1(1080O0808080
  ;V(I1B191F0$D1%k171).t171J131T131H37137R13131C0
  ;W&A070407060807040706030$x0.41V190j060$C060$z1755333313131(|x1d1h19171A0 ;X*!U15191717151515191715191 ;Y&B0W0%D1)>P1
  ;Z)Q1V1=T1 ;a(K3B1Y191G17131O1$H751C352k1 ;d,G13131313131.p1 ;f,I13131313131 ;h*%0080808080808080808080G080%00
  ;i*%1080808080808080808080808080%0070 ;p*i1E1 ;x)_w171N1D131B131J17191H19191D1N1H3L3B131 ;y)~i1 ;z)_s1 <0,e3
  <1&D0W0x1J14191G17131&B1)/D1N1 <2(C1J1L1$51$v1 <7)|A151Z1D1b151 <8)|Y1 <A)|I1H1$91 <B)_y171b151D1L1F1b2
  <I*;k1J0V2r05030O020R0303020N020B43131713131Z3n373 <S*%6171N1717171N1807171$90B05090718071F0 <V*(4l323050623050c23050
  $)7$(K0 $)8$(L120%U020H0 $)9$(N0 $^8$?p08030 $|E$|R0 $|d$|S0 %(Q%(d0 %(o%(a0 %(p%(e0 %*U%*g1 %*t%)o0u0 %,w%,i0 %/g%/o0
  %/z%/e07040 %:0%/m0 %;g%;s1 %<5%;u0 %=w%>C030 %>1%>E0 %>H%>G0 &&o&&g0 )+L)*a00440f0203120
  .:f./Q00B30027030303030O0A0E00B30027030303030O03340 .:g.:1030303030$M030303030 %:<6%:;a020F0 %:=r%:=y1 %;%U%;%h0
  %;%t%;%i0 %;,S%;,e0 %;,c%;,d0 %;,f%;,g0 %;;Z%;;k1 %<*2%<*A0"

def pairLetters : String :=
  "AEIOUaeiouÜüNnЕИеиĒēŌōWwÂâĂăÊêÔôƠơƯưYyἀἁἈἉἐἑἘἙἠἡἨἩἰἱἸἹὀὁὈὉὐὑὙὠὡὨὩαεηιουωΑΕΗ᾿ϊΙ῾ϋΥ¨ΟΩAEIOUYaeiouyCcLlNnRrSsZzÜüGgÅåÆæØø
  ¨ΑΕΗΙΟΥΩϊαεηιϋουωϒГКгкÇçĒēÏïKkMmÕõŌōPpŨũWwÂâĂăÊêÔôƠơƯưἀἁἈἉἐἑἘἙἠἡἨἩἰἱἸἹὀὁὈὉὐὑὙὠὡὨὩ᾿῾AEIOUaeiouCcGgHhJjSsWwYyZzẠạẸẹỌọANO
  anoIiUuVvÂâĂăEeÊêÔôƠơƯưYyAaEeIiOoUuÜüÄäȦȧÆæǪǫÖöÕõȮȯYyИиУуGgḶḷṚṛαΑιΙυΥAaEeGgIiOoUuУИиуЖжАаЕеȨȩẠạαΑιΙυΥCcEeGgIZzAaOoBbDd
  FfHhMmNnPpRrSsŚśŠšṢṣTtWwXxYyſAEIOUaeiouyYΙΥιυϒЕІеіАаӘәЖжЗзИиОоӨөЭэУуЧчЫыHhÕõŪūWwXxtAaÂâĂăEeÊêIiOoÔôƠơUuƯưYyAaUuwyOoUuУ
  уCcDdEeLlNnRrSsTtZzAaIiOoUuÜüGgKkƷʒjHhAaEeIiOoRrUuѴѵAaEeIiOoRrUuαΑεΕηΗιΙοΟυωΩραΑεΕηΗιΙοΟυΥωΩρΡOoUuBbDdHhKkLlMmNnRrSsTt
  VvWwZzAaEeIiOoƠơUuƯưYyUuAaSsTtCcGgKkLlNnRrSsTtEeDdHhAaEeIiUuOoDdEeLlNnTtUuHhEeIiUuBbDdKkLlNnRrTtZzh←→↔⇐⇔⇒∃∈∋∣∥∼≃≅≈=≡≍<
  >≤≥≲≳≶≷≺≻⊂⊃⊆⊇⊢⊨⊩⊫≼≽⊑⊒⊲⊳⊴⊵ἀἁἈἉἠἡἨἩἰἱἸἹὐὑὙὠὡὨὩα¨η᾿ιϊ῾υϋωἀἁἂἃἄἅἆἇἈἉἊἋἌἍἎἏἠἡἢἣἤἥἦἧἨἩἪἫἬἭἮἯὠὡὢὣὤὥὦὧὨὩὪὫὬὭὮὯὰαάᾶΑὴηήῆΗὼωώῶΩا
  اويەہےاनरळেেେେେெேஒெెೆಿೆೊೆെേെෙොෙෙဥᬅᬇᬉᬋᬍᬑᬺᬼᬾᬿᭂかきくけこさしすせそたちつてとはひふへほうゝカキクケコサシスセソタチツテトハヒフヘホウワヰヱヲヽはひふへほハヒフヘホ𑂙𑂛𑂥𑄱𑄲𑍇𑍇𑒹𑒹𑒹𑖸𑖹𑤵"

end CodeAtlas.ComposeTable

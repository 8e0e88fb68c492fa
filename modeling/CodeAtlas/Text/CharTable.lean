import CodeAtlas.Text.CharSet

/-!
# Properties of characters, version 14 of the character database

Each table lists the characters above the ASCII range that have a property; `CodeAtlas.Text.Alphabet`
decides the ASCII characters by itself and asks these tables for the others.
-/

namespace CodeAtlas.CharTable

def identifierStart : CharSet := CharSet.ofText
  "%k0B0506M2U2+N5BF48020%642142207022202J2$K2%E9%f2b307e$AQ53kga12$a20G181B230H02TU$QC0PWA1506L50A040OO8A6N25Ifxr40J089G
  F57313L26204340H0E122F1B095513L26212121W320K2H8222L26212440J0G1O0C7313L26212440V122G0I025422341202141424BN0r7222M2F40R
  23031V057222M292440W121G1I8222e30H06292P56H4N282036xl20E6x120242N202920B03420M3X0$272ZS4$sgL0H5534041825CD0Ib20603g2)M
  233620233e233W233620233E2u233$4cFH$N354.z3G2P6$C4A8HEIFHFC22Gpa050$6$Q8e206$7BUoT34Ch5PtMAq$L0$WkI7tTE1BhRZg2BZ388g32g
  32521406&5$3(T353b3537032U3q2620422643355C6226$t0E0HC$e05039203570022F336450Ie%$E&g7341Db20603t80HMA626262626262626,t2
  Q884345$N722$R236g2$VIVnF,H)$J$3^!M$6j3(K4FB1LkHU3$He83$e3$1612024PF22232MUpFn$154021CRBMQS8kT0H429B42eO227LM404n20413
  43020P23A82D53535A6262g2D7$qU,;BDM5m*/L)t3$hd6D460292C242021212$jY%E7&VJ$13rf9$w02040032%1bP7PCt3U45353532aB2P2I212E3D
  Z$y$8q(KS4mmVET6bBT3Z5724h%XJZ5Z5d9pDA2E26212A2E2621$6)0ALB7P52f28$85302h21403MBMAU$4I21BLBP$9t71$30G3222ShS4Sa72RSrBL
  BIEH$n$AuoEoEZ)df71$HSB09LhHlKSMDqw130EiXORZU0309Y40DlF3M020aH2O$N620232E298kd7313L26212440J0D4%ZqJ3L2VlL120%zkg3blL0y
  gE0$AQc6&0h$t$1W73037212NG020$X73cH020T0Bd80M0CjK0J$A(G82aI0oT$p6212bM0Q5212VF0)II&40$I=r$f$mI&9%!X$YG^G&%K.O*<G.A8UI$
  GITJlH3WK6I:7$1%5$C60$5C$3120T(=x9|xh8*_8326212(gk2I39*N$?F$i6C4889(;d$M2$8213031332B20262$22337262R232420462)T3O2O2U2
  O2U2O2U2O2U2O27$,lU+miB6H0)CTJh~T623212E2&Ay$580|R32Q212030292302705002222120300421203326232320292G62242G&,J$:^1X&&y8&
  Z3(,vF)>W%,4,j$&J&?e"

def identifierMore : CharSet := CharSet.ofText
  "%x0.R$nO0(44(Ii20212120$BAnU70$e635312339O0VQ$UAG9Y8A0P3282224i2z7hN2Wt22H26B139I2v0263132A0B139F032v024513240LB40C2v0
  272222L139B522v026313282B139J0y44223A0F9H4u026222381C139I2v026222381C139H3u1262223A0B139I2$905520277931$0027D729$Q029C
  539$1179C00251oJ216A2ZA0$dJ29D352223643EB2E:M2A8=z3T2U1V1$3VA039Y22A%K0$vB5BB9%5Az4w92S3A79ND2Fo4mGC9I8D2VC39jDnJ9979$
  v22K507032&D$1.I1K0%0C504B%+X2%I0$ZV,x5$i1$%%G9$8059X1$J1(P04050O450$M1pHB97HEAT7QCj3mDG9C0B9mDD09139Y2p022316120g461&
  p72139>:n0:uFHF41P2&79c0$X1.m0&f0%Q4(k9$$422163f250%g1.G399)y1%UAo3$z2sEWA31B3kA80k972bD2961j0D2nD932B$LB70%bB6973u126
  3132A0B13644&7HA950$KJD9&S638S1$LGG9$KC99$ME59&vE%g9$9521332021D9$w63640T9f62390AAlF*Y727H9vL2D$z54021262099n4212499)K
  3=^O9$P9d4y6Q9?M02s83$K0C1>$a1&;uj3M,l4459736V3%P2$$sn,Hs5n90F0N42E$!x62G362124(E6A9)l0$0D$&76$m669&<l9$+^!9&r"

def alphanumericOther : CharSet := CharSet.ofText
  "%s16032:I0:y9%B9&D9*f9$v955$l9$v9$v935$nC$s996$g9$h68I$m9$60T9$S0T9$9J(L9$99:cJ_8979N9$k1&69%5A%g979%x9$P9%B979?t04579
  %J0M0YFg0:jx$HL/BT$$M0(w0<z3%F9V72EX9eE$$=P9,N5%V9d9&D9N9$P9*Z9>?x5*Z1$t007%M9%91)oi$43I1)WQb3*99>D7Q6e8$E4N5%b13F3j$3
  8r1V2$E4$h7P7g6)L5n9(lU%Z9h3$p6%BT%59z9%L98J(49)X9$v9*39$f9$fB*nI$W9;FS&g9$99,dK=<o9$P9%B926;tM|>6J$lO^un$^D9*p9$%y8%5
  9;mw2223$Fi2E>XC%%y9"

def wordStartOther : CharSet := CharSet.ofText
  "%c3:h0,b0%00,31,3180&y0(G0.C0C0$s0$?o0%k1$/t1K0$EW$Q0M0%:h0$%~t0?:S5*Z2t1P2Q07007%A0x0$X1$3141*)z3$^+f0$|10"

def wordPartOther : CharSet := CharSet.ofText
  "%c3I0:P0D0,O0%00,31,3180&y0(G0.O0$!K8_E0,F0$*yW$Q0M0%:h0$%~t0?:S5*Z2$l07007%A0&Y141*)z3$^+f0$|10"

def unprintable : CharSet := CharSet.ofText
  "%4WD0:X1738020L0*Q0d1p140u7S37GN0&70n1y1$eDy1o1G0T120C4W8$D0%c09131N0802251A13157233061Q1407331N0803030312063314226502
  6I940A040N0803061B040412E51D680409131N0803061A13146433061J9307240523020323242D3624051252DM4E040O0H1A0405630412151B6N04
  0O0B061A04056353051B03CE040q04073H1R040J2P0A0218223702095B14Bx3Ua302060P020O1602071B15V$B0b3e0b0G0Ea&D02421*6051802051
  g051Y051802051G0w051$61X2R5$P171/L0T2$S6N8P8LBE0403B$X1B5B5F0C5$S6i4$99W0D3D322h16Aj3R5C2$11$40U1C5B5F1Wm$G2m0$t7z2G2z
  6i1C7i4,d171d1719003W1s0G0F170K140AGP7mG31S0E2YEYE%H3/iOCK$,F1X0)e4k02421v63DP88080808080808080%3XR0$SB&TPD4$20$P1$g4i
  0$X0$NBm0$$/U2u8)dJ%z7&I430206Ny2B5v7$97D5$tAV2$H0C3Y0u8F1B1$gNT97171788080z3%31B5,;DBO3o3$;3(|D)v1$jb8B64R060203030%2
  F+C1t62Vh5q0K05360%C3&5271717142808C31D0R0K030G1FX%0443k2$R0E22kl%5U2oET3b8V4i4V0c3Ff%Z1B5b3b3f7rAD0G08030C0G0803$4)28
  N99N70h0A$67120j03221O0$B7AlK034Y2S42$1v3L1p0349040U143B6A6$3Ve3D8t2U1S4R65B8$H$CsqCq6l7B(jW0h0413$Ff7hLRbTJO8$H3b8$10
  6CQ6B5s0J7e8$Z0LAJ0j$2802050G0C5y4B5509131N0803060B13141252481826%E$V06T$B7B%ft1dX$8AB5EIx5BrS1G3O%yz$b$MB91219030V031
  D8B$791l1CQ$B7$MC$C(EA0k0F9U2X1N0F$A8030j22030A7B57030c03076B(zQ%w2EpC=u$d$o06A&B%!V$cC^I&%I.Q*<E.C6W0B3$K0B5V179$99B0
  80M4K:5$U$c$E3w6I$16A3D(=z7|zfA*_6508030(ii4G57*P$?D$k4E2A6B15&;rl1O8$tx&z9e1$D7$pK$9%TLB$Q8Q%A$O0$A031213150D02080$40
  519080T050602280)V1(j1:LE60G^nW&c80I180306&Qk2F1B33)9WGx42~7805030G0&C1He$F3B33;e$7$D$0&750S0302120B050202523034030210
  530215080505020B0I44060Ip3(Lj3$dBG1G0G0c9%ptUCj3A63D7%T>t4H2E2$tB$S6D32ED3v7B5f7V13$F)VBF1626288U2C479B59788%O0uaB?b$:
  ^3V&(06&b1(,xD)>Y%,2,l$&H&?g$)($o&t+&<5"

def uppercase : CharSet := CharSet.ofText
  "&6M26Y00R3007300M2102412021223321224121022120302122202140803030300730083030220T8121302304(g0204090702220212G28a032400B
  6030213on00GA00Q2106300l3b%(cb2060:f$N$=Xg32)B00$CA00mA795B79795C00397$B3D3D3D4C3(F0504232304470022333B160RFK0<DP$,hln
  0223002232030920n902050$%^s00MK00D%C006400UB02021045020302040092424072320706020T0^%wP|id%DZ%XA2E2621$+Zo%+GV?^3V|~dPRP
  RPR02130313327RPR1233726S123242046SPRPRPRPRPRPVOYOYOYOYOY0&,4X$;HP7P7P"

def lowercase : CharSet := CharSet.ofText
  "%k0B050bN270R2107210N302022302030415030423030023021203040203132703030072108213020400S2630312050032$62Z81V4$Z0i0204033J
  0SY21420B24203031ql0HA00Q3005210mne%(ag32;H5$=98$w&5$400$B280m2895B79795B7979D3797979421704221933197B221$y0E0HC$m04140
  S05050319350YF50<cP$.3l204103502127400m21802050Db2060$%?w00MK00C22%A005220U29023004502030220A60600750207004T022<Gg2C8$
  H>;F6D4^CP|qd%DZ%WA2E2621+I0322f28~ko%*kV?^3V|~XPR62HRPR320262ARPRPRPRPRPRPRPRPRRTO25RO25RO25RO25RO2520$,l92J$~MX"

def titlecase : CharSet := CharSet.ofText
  "+J03030d0)^A79797D0G0m0"

def caseIgnorable : CharSet := CharSet.ofText
  "%i050205031,8&55150A120(46&M060oi20212120j0C5BA20a0BKH0$e72923Y020VQ$UAxA5030PNi2j08177gvu020575046B1E0G0x05390L1R031w
  051513240V140C1w0542150L1N520x030239081C1V0$00D0p040u022622381C1U0x0307061L1T1w15390L1U0$B08220$T036C8$b038A025$D1S002
  uD24216A2ZA0$f3252131Q152H3E03170G0$X0.p2>H2U1V1V1$3126903A4060k4q0$41Z0$v251A072&Y130x02602377930e09Uo3n0242060f8D1X3
  3122v0214022x731$35$L22C26507041p$0E0Z$c+C022C2E2E2E1D491B03034o42920E0HCqW%)g1$q2%20G0$ZVm0+a0b34460$W5$W2$!^h0~B5(N0
  $b32920T3$J1FX$H0O2$g241904050Q160%S1RHE0d7QAl2n03331I0M1$553131D090a0C0q022316120S0F16120$d4A2$y03050>:z0%OG.GF40DFZ0
  30%k08070C0a020m0k1$60M2,I0&f0%Q4?c52f28.P22163f250%g1.G3*G1%UAo3%00tEg031B2o3313050B0p2b427$10D1r8B330$Y2302170%b047M
  1w140c644&A73220O0$N5205121&r37121S1$O73021$j0203520$e23324(C821(912050%L33150X9f53390A532lC21*Z62520$LL362121$z540212
  620$B14020)c1(&g8/>w4y6A3?i0$2G$3121;;S32621%/7123&;pj3M,n2AF36V3%P2$/ws5n90F0N42E$!x62G362124(ED)x0$03$&H6$m7%%84$+_+
  y0V$X%5&r"

def otherDigits : CharSet := CharSet.ofText
  "%s160&=A8$)T0$*C04579>r8C8C8$S0B820/B82828%%:y3?z8+u8%%&aA"

def zeros : CharSet := CharSet.ofText
  "m9$(P9%B9&D9*f9$v9$v9$v9$v9$v9$v9$v9$v9$v9$Z9$v9$99(V9$99$.39d9(r9%59%h979%x9$P9%B979$*$t9/x9d9&D9N9$P9*Z9?+59$$p9$=D9
  <79%59z9%L9(V9)X9$v9*39$f9$f9*p9$f9;F9&z9$99>$l9$P9%B9$!*p919191919$^D9*p9$)B9&<l9"

def isIdentifierPart (c : Char) : Bool := identifierStart.contains c || identifierMore.contains c

def isAlphanumeric (c : Char) : Bool := identifierStart.contains c != alphanumericOther.contains c

def isWordStart (c : Char) : Bool := identifierStart.contains c != wordStartOther.contains c

def isWordPart (c : Char) : Bool := isIdentifierPart c != wordPartOther.contains c

end CodeAtlas.CharTable

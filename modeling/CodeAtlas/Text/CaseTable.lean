import CodeAtlas.Text.CharSet

/-!
# Case mappings of characters

Runs of characters that are moved by one distance are rows of numbers (`CharMap.readRuns`). An expansion maps one
character to several.
-/

namespace CodeAtlas.CaseTable

def lowerRuns : String :=
  "$3o$2$ei$22C$2Yl24523F23j220&v15240*m13220*e10222*c10230%Y10*W10*Y10220*c10*g20*o10*k10240*o10*s20*u15220+210220+23022
  0+210222+013220+41024028041022041022041H23H230413220&910$p1d220(D2H280?;E10220)H10?;830220*J10%E10%I192(g3240290&k70$E
  24$C20%422%22W$22G$2a0G9N260$x30220F10234(D1U%a1$0$2nX2Ar220U1D23$X23$C$Y%(c$C:&K20:&K60:&K:f%Y%^=g1AG$=X$M(<334(<3)B%
  P2A0:=f2$X2AEH9AHBEH9EH9AHC7H9EHPEH9EH9EH92H12%P10JC6%n10JC2H12&FD2H12&d10FC2(912(510J(o0::V40;_R10;=X70ukUWK02<Doq$,h
  $W$Yn0220?/Z10)_310?/335220?:l10?/l10?:r10?:p20230292?;t1$b2932502$%^sj2KR2%CD24z2B3220%;)l19250220&$|t3324J220&$~n10&
  %!910&%!110&$~h10&$~n20&$|B10&$|x10&$|H10$,w1F220$Z10&$~l10%;+R132702632T02^%wo$2|i$G$I%D$8$I%XK$G2S$G2C$G22$G$+Z$c%4%
  +G$0$2?^3$0$2$&%L$4$6"

def lowerExpansions : Expansions where
  codes := "(u0"
  lengths := "21"
  letters := "i̇"

def upperRuns : String :=
  "$Zo$3x0$%yhi$32C$310&u2l320+V2533F33j335310.h10*I33330340360330&840310)G40(C35330350330343330340320$o60310520310520310
  52F310%Z2H33031052034d34H390332?;s20359310?:q10?:k10?:o10*n10*f22*d20*X20*Z10&%!840*d10&%!020*h20&$|s10&$~m20*l10*p10&
  $~m10?/Y10&$~g30*p20?/k10*t30*v80?/230+320&$~k10+340&$|w10+310%F12+110%J60+5B0&$|G10&$|A%h0%ii3340344(Cl0$F14$D2W$310$
  11G$310%512%320%110$r40$X10$l10H2N310%n10%b10E10&l20&7303303r$0$31U%b2X3Ar33D310V2$X3o$C$Z%(c$M(<234(<2;HAH$=90.;l10.;
  j10.;R12.;N10.;P10.;B10./P10%;&c&t0%;)k40)_2H0%;+Q$r%P360$v6$X31EG9AGBEG9EG9AGC7G9EG92%O16%m12&E12(812&c12(4p2GD0:$RI2
  GF2G40E)p0vYUX503<cor$.3$W$Z20340?;F10?;9253703303B$b3933503D$C:&L20:&L60:&L$%?wj3KR3%CD34z3B3339350353310$Y3J3CF35337
  03633T03<t0$,xT%Y%^=h?,oo$3|q$G$J%D$8$J%WK$H2S$H2C$H22$H$+y$c%5%*k$0$3?^3$0$3$&%N$4$7"

def upperExpansions : Expansions where
  codes := "&b0$i0%h0*i0W0+b0(|T4%w003gl3221506221506131B221B22150%$$K6D4"
  lengths := "233227332q3125312132213322312431243227"
  letters := "SSʼNJ̌Ϊ́Ϋ́ԵՒH̱T̈W̊Y̊AʾΥ̓Υ̓̀Υ̓́Υ̓͂ἈΙἉΙἊΙἋΙἌΙἍΙἎΙἏΙἈΙἉΙἊΙἋΙἌΙἍΙἎΙἏΙἨΙἩΙἪΙἫΙἬΙἭΙἮΙἯΙἨΙἩΙἪΙἫΙἬΙἭΙἮΙἯΙὨΙὩΙὪΙὫΙὬΙὭΙὮΙὯΙὨ
    ΙὩΙὪΙὫΙὬΙὭΙὮΙὯΙᾺΙΑΙΆΙΑ͂Α͂ΙΑΙῊΙΗΙΉΙΗ͂Η͂ΙΗΙΪ̀Ϊ́Ι͂Ϊ͂Ϋ̀Ϋ́Ρ̓Υ͂Ϋ͂ῺΙΩΙΏΙΩ͂Ω͂ΙΩΙFFFIFLFFIFFLSTSTՄՆՄԵՄԻՎՆՄԽ"

def titleExceptions : Expansions where
  codes := "&b0&h8b2=m0%(bg32%^tl323050623050c23050%$$K6D4"
  lengths := "211C211$W211121311121112131112111213111233227"
  letters := "SsǅǅǅǈǈǈǋǋǋǲǲǲԵւაბგდევზთიკლმნოპჟრსტუფქღყშჩცძწჭხჯჰჱჲჳჴჵჶჷჸჹჺჽჾჿᾈᾉᾊᾋᾌᾍᾎᾏᾈᾉᾊᾋᾌᾍᾎᾏᾘᾙᾚᾛᾜᾝᾞᾟᾘᾙᾚᾛᾜᾝᾞᾟᾨᾩᾪᾫᾬᾭᾮᾯᾨᾩᾪᾫᾬᾭᾮᾯᾺͅᾼΆͅΑ
    ͂ͅᾼῊͅῌΉͅῌ͂ῌῺͅῼΏͅῼ͂ῼFfFiFlFfiFflStStՄնՄեՄիՎնՄխ"

end CodeAtlas.CaseTable

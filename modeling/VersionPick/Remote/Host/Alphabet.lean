/-
What Unicode's rules for international names of hosts say about single
characters from U+0080 on: which of them a name may have, which way they are
written, how they join, and which of them stand for others. What a character
stands for is told where a character below U+0080 is in it; no rule here
depends on the other replacements.
-/
import VersionPick.Text.Decimal
import VersionPick.Text.Hex
import VersionPick.Text.Pieces

namespace VersionPick.Host

open Text

/-- What a character is in a name. -/
inductive CharClass
  /-- Written from left to right. -/
  | letter
  /-- Written from right to left, and none of the Arabic letters. -/
  | hebrew
  /-- An Arabic letter that joins none of its neighbours. -/
  | arabic
  /-- An Arabic letter that joins the one before it only. -/
  | arabicEnd
  /-- An Arabic letter that joins both neighbours. -/
  | arabicLink
  /-- A digit of the Arabic script. -/
  | arabicDigit
  /-- Any other digit that is written from left to right in every text. -/
  | digit
  /-- A combining mark without width. -/
  | mark
  /-- A combining mark with width, written from left to right. -/
  | spacingMark
  /-- The joiner and the non-joiner, both without width. -/
  | joiner
  /-- Written as its surroundings are. -/
  | neutral
  /-- Left out of a name. -/
  | ignored
  /-- Never in a name, nor is what it stands for. -/
  | refused
  deriving DecidableEq, Repr

/-- The class of a character. It is settled if it stands for no other one;
otherwise the class is that of the first character it stands for. -/
structure Standing where
  kind : CharClass
  settled : Bool
  deriving DecidableEq, Repr

/-- The classes by the signs of the table, where a small letter marks
characters that stand for others. -/
def Standing.signs : List (Char × Standing) := [
  ('L', ⟨.letter, true⟩), ('l', ⟨.letter, false⟩), ('R', ⟨.hebrew, true⟩), ('r', ⟨.hebrew, false⟩),
  ('A', ⟨.arabic, true⟩), ('a', ⟨.arabic, false⟩), ('B', ⟨.arabicEnd, true⟩),
  ('b', ⟨.arabicEnd, false⟩), ('D', ⟨.arabicLink, true⟩), ('d', ⟨.arabicLink, false⟩),
  ('H', ⟨.arabicDigit, true⟩), ('E', ⟨.digit, true⟩), ('e', ⟨.digit, false⟩), ('M', ⟨.mark, true⟩),
  ('m', ⟨.mark, false⟩), ('C', ⟨.spacingMark, true⟩), ('J', ⟨.joiner, true⟩),
  ('N', ⟨.neutral, true⟩), ('n', ⟨.neutral, false⟩), ('i', ⟨.ignored, false⟩),
  ('x', ⟨.refused, false⟩)]

/-- The characters from U+0080 on as runs of one class: its sign, and how many
characters the run has, unless it is one. -/
def runTable : List String := [
  "x33N7xNlN2iNxN2e2xlN2xelNe3Nl23Nl7L24NL8lLlLlLlLlLlLlLlLlLlLlLlLlLlLlLlLlLlLlLlLlLlLlLlL",
  "lLl3LlL2lLlLlLl3LlLlLlLl2LlLlLlLlLlLlLlLlLlLlLlLlLlLlLlLlLlLlLlLlLlLlLl2LlLlLlLl2LlLl2L",
  "l3L2l4Ll2Ll3L3l2Ll2LlLlLl2LlL2lLl2Ll3LlLl2L3lL7l10LlLlLlLlLlLlLlL2lLlLlLlLlLlLlLlLlL2l4L",
  "l3LlLlLlLlLlLlLlLlLlLlLlLlLlLlLlLlLlLlLlLlLlLlLlLlLlLlLlLlLlL7l2Ll2L2lLl4LlLlLlLlL97l9N2",
  "L7N14L2N6x6N2l5N9LN17M64m2Mm2lM9iM32lLlLnNlLx3L3nlx6lnl3xlxl2Ll17xl9L35l8LlLlLlLlLlLlLlL",
  "lLlLlLlLlLl3Ll2NlLl2L2l51L48lLlLlLlLlLlLlLlLlLlLlLlLlLlLlLlLlL2M7lLlLlLlLlLlLlLlLlLlLlLl",
  "LlLlLlLlLlLlLlLlLlLlLlLlLlLlLlLl2LlLlLlLlLlLlL2lLlLlLlLlLlLlLlLlLlLlLlLlLlLlLlLlLlLlLlLl",
  "LlLlLlLlLlLlLlLlLlLlLlLlLlLlLlLlLlLlLlLlLlLlLlLlLlLlLlLxl38x2L46lL2Nx2N3xM45RMRM2RM2RMx8",
  "R27x4R6x17N2AN2ANAN2M11AxA3DAB4DBDBD5B4D13AD7BD2M21H10NH2AD2MB3Ab3dD15B18D38BD2B9DBDBD2",
  "B2ABM7xNM6A2M2NM4B2E10D3A2DA14x2BMD3B5D4BD9BDBDBD2BM27x2BD11B3D15B2D4BDB2D3B2D6A38M11A",
  "x14R43M9R2N4Rx2MR24M4RM9RM3RM5x2R15xR25M3x2RxDAD4ABDB2x5B19A3DA2D5BDx7M9D10B3ABD2B2D6B",
  "D15AM24xM32CL54MCMLC3M8C4MC2LM7l8L2M2L29MC2xL8x2L2x2L22xL7xLx3L4x2MLC3M4x2C2x2C2MLx8Cx4",
  "l2xlL2M2x2L12N2L7NL2Mx2M2CxL6x4L2x2L22xL7xLlxLlxL2x2MxC3M2x4M2x2M3x3Mx7l3Lxlx7L10M2L3ML",
  "x10M2CxL9xL3xL22xL7xL2xL5x2MLC3M5xM2CxC2Mx2Lx15L2M2x2L11Nx7LM6xMC2xL8x2L2x2L22xL7xL2xL5",
  "x2MLCMCM4x2C2x2C2Mx7M2Cx4l2xL3M2x2L18x10MLxL6x3L3xL4x3L2xLxL2x3L2x3L3x3L12x4C2MC2x3C3xC3",
  "Mx2Lx6Cx14L13N8x5MC3ML8xL3xL23xL16x2MLM3C4xM3xM4x7M2xL3xL2x2L2M2x2L10x7LN7L2MC2L9xL3xL23",
  "xL10xL5x2MLC7xC3xC2M2x7C2x5L3xL2M2x2L10xL3x12M2C2L9xL3xL41M2LC3M4xC3xC3ML2x4L3CL10M2x2",
  "L26xMC2xL18x3L24xL9xLx2L7x3Mx4C3M3xMxC8x6L10x2C2Lx12L48MLmM7x4NL7M8L13x37L2xLxL5xL24xLx",
  "L10MLmM9Lx2L5xLxM7xL10x2l2L2x32L12lL11M2L27MLMLMN4C2L3lL4xL4lL4lL4lL4lL12lL3x4M2mMm5M5CM",
  "mM3LM2L5M6mM4xM4mM4mM4mM4mM12mM3xL8ML6xL13x37L43C2M4CM6CM2C2M2L23C2M2L4M3LC3L2C7L3M4L13M",
  "C2M2C6MLCL10C3ML2l38xlx5lx2L44lL98i2L232xL4x2L7xLxL4x2L41xL4x2L33xL4x2L7xLxL4x2L15xL57x",
  "L4x2L67x2M3L29x3L16N10x6L86x2l6x2NL639xL26N2x3L89x7L18M3Cx9L19M2CL2x9L18M2x12L13xL3xM2",
  "x12L52i2CM7C8MC2M11L7NLMx2L10x6N10x6N11i5L10x6L89x7L5M2L34MLx5L70x10L31xM3C4M2C3x4C2MC6",
  "M3x4Nx3N2L40x2L5x11L44x4L26x6L11x3N34L23M2C2Mx2L55CMCM7xMCMC2M8C6M10x2ML10x6L10x6L14x2",
  "M46x2M12x20M4CL47MCM5CMC5MC2L8xL29M9L12M2CL30CM4C2M2CM3L56MCM2C3MCM3C2x8L40C8M8C2M2x3L15",
  "x3L51l10Lx5l43x2l3L8x8M3LM13CM7L4ML6ML2CM2Lx5L44l3Ll11Ll18Ll28L13lL34l37M64lLlLlLlLlLlLl",
  "LlLlLlLlLlLlLlLlLlLlLlLlLlLlLlLlLlLlLlLlLlLlLlLlLlLlLlLlLlLlLlLlLlLlLlLlLlLlLlLlLlLlLlLl",
  "LlLlLlLlLlLlLlLlLlLlLlLlLlLlLlLlLlLlLlLlLlLlLlLlL5l2L2lLlLlLlLlLlLlLlLlLlLlLlLlLlLlLlLlL",
  "lLlLlLlLlLlLlLlLlLlLlLlLlLlLlLlLlLlLlLlLlLlLlLlLlLlLlLlLlLlLlLlL9l8L6x2l6x2L8l8L8l8L6x2",
  "l6x2L8xlxlxlxlL8l8LlLlLlLlLlLlLlx2l48L2l3xLl6xlx3l3xLl6x3L3lx2L2l4x4L3lL4l5x5l3xLl6x14i",
  "J2x2NnN5xN12x3Nx8N3n2Nn2N4nNxN8x3N13nN7xi5x5i6elx2e6n5le10n5xl13x3N8lN24Lx14M33x17lnNx2l",
  "Nnl10Nl2N2l5N2l3NlNlNlNl4Nl6r4lNl5nN4l5N4L2e16l32L3lL5eN2x4N156n2Nn2N248n2N11L69N26LN145",
  "L3x22N11x21e20n20x20n26l52eN449LN339L256N268nN103xn2N101nN151x2N32LN105l48L48lLl3L2lLlLl",
  "Ll4LlL2lL6l5LlLlLlLlLlLlLlLlLlLlLlLlLlLlLlLlLlLlLlLlLlLlLlLlLlLlLlLlLlLlLlLlLlLlLlLlLlLl",
  "LlLlLlLlLlLlLlLlLlLlLlL2N6lLlLM3lLx5N7L38xLx5Lx2L56x7lLx14ML23x9L7xL7xL7xL7xL7xL7xL7xL7x",
  "M32N94x34N26xN4lN83lx12l214x43NnN2L3N25L9M4C2NL5nNl3L2N3xL86x2M2x2L2lNL90NL3lx5L43xl51i",
  "l42xL2l14L32N36L2x10L16n31xn36l4L8le15l31Ll49e27l140e25l81xl4xl16xl7e31lL6592N64L22157x3",
  "N55x9L317N3L28x20lLlLlLlLlLlLlLlLlLlLlLlLlLlLlLlLlLlLlLlLlLlLlL2M4NM10N2lLlLlLlLlLlLlLlL",
  "lLlLlLlLlLlLl2M2L80M2L6x8N34lLlLlLlLlLlLlL3lLlLlLlLlLlLlLlLlLlLlLlLlLlLlLlLlLlLlLlLlLlLl",
  "LlLlLlLlLlLlLlLlLlL8lLlLl2LlLlLlLlLNL2lLlL2lLlL3lLlLlLlLlLlLlLlLlLlLl5Ll5LlLlLlLlLlLlLlL",
  "l4LlLl2LlLlLlLlLlLlLlLlx20l5L2l2L8ML3ML4ML23C2M2CN4Mx3L8N2x6L52N4x8C2L50C16M2x8L12x6M18",
  "L13ML38M8L25M11C2x11L30x3M3CL47MC2M4C2M2C3L13xL11x4L7ML25xL41M6C2M2C2M2x9L3ML8MCx2L10x2",
  "L31CMCL50MLM3L2M2L5M2LMLx24L16CM2C2L5CMx10L6x2L6x2L6x9L7xL7xL44l4L9lN2x4l80L35C2MC2MC2LC",
  "Mx2L10x6L11172x12L23x4L49x8452l270L2lLlL2l10LlLlL2l2L3l68x2l106x38l7x12l5x5rMr10nr13xr5x",
  "rxr2xr2xr10b2d48b12d22b2d8b4A17R16d4b13d119b2dx6d142a3d71b2N18d64R2d54R7Nx32d2b2d2bdbdx2",
  "bN3i16n2x2n2xn2x7M16xn6x2n12N2x6n5x2nx2n4x2n2xn4x2nx2nx7axAx3axaxaxaxa2b8d4b2d4b2d20b8",
  "d60b2d14x2ixnx2nxn9xe10xnxnx3l26x4nxl26x3n8l56m2il30x3l6x2l6x2l6x2l3x3n3xn3xn7x17L12xL26",
  "xL19xL2xL15x2L14x34L123x5LNLx4L45x3L9N77L2xN13x3Nx47L45Mx130L29x3L49x15ME27x4L36x9L30x5",
  "L38M5x5L30xL37x4L14x42l40L118x2L10x6l36x4L36x4L40x8L52x11Ll11xl15xl7xl2xL11xL15xL7xL2x3",
  "L52x12L311x9L22x10L8x24Ll5xl42xl9x69R6x2RxR44xR2x3Rx2R23xR72x8R9x48R19xR2x5R33x3NR26x5",
  "R27x38R56x4R20x2R47M3xM2x5M4R4xR3xR29x2M3x4MR9x7R9x7R64x32R37M2x4R12x9R54x3N7R22x2R27x5",
  "R26x7R4x12R7x80R73x55r51x13R51x7R6D34BDM4x8H10x6R16r22x3M5R24x8R2x208H31xR42xM2Rx2R2x16B",
  "D2AD2x8A9x33M6R40x8D3BD17AM11D3BA5x22R18M4R4x38R28x20R23x9CMCL53M15L7x4N20L10ML2M2Lx9M3C",
  "L45C3M4C2M2L2xL4Mx13L25x7L10x6M3L36M5CM8xL15C2Lx8L35ML3x9M2CL48C3M9C2L8M4LCML16xL20x11",
  "L18xL25C3M3C2MCM2L6ML2Mx62L7xLxL4xL15xL11x6L47MC3M8x5L10x6M2C2xL8x2L2x2L22xL7xL2xL5xM2L",
  "C2MC4x2C2x2C3x2Lx6Cx5L5C2x2M7x3M5x11L10xLx2LxL38xL4M6xLx2LxL4xL2MLMLML3xL2x8M2x29L53C3M8",
  "C2M3CML21xLML3x30L48C3M6CMC4M2CM2L4x8L10x166L47C3M4x2C4M2CM2L27M2x34L48C3M8C2MCM2L4x11",
  "L10x6N13x19L43MCMC2M6CML2x6L10x6L20x28L27x2M3C2M4CM5x4L23x185L44C3M9CM2Lx100l32L51x12L8",
  "x2Lx2L8xL2xL24C6xC2x2M2CMLCLCML3x9L10x70L8x2L39C3M4x2M2C4ML3Cx27LM6C2M2L40M6CLM4L8Mx8LM6",
  "C2M3L46M13CM2L9x13L73x7L10x86MLM3LMLx88L34x14L10x6L9xL37CM7xM6C2L6x10L29x3L32x2M22xCM7C",
  "M2CM2x73L7xL2xL38M6x3MxM2xM7LMx8L10x6L6xL2xL32C5xM2xC2MCMLx7L10x6L44x4L10x246L19M2C2L2x7",
  "M2L15xL36M5x3L2MLML23Mx85Lx15L21N29x13L923x102L111xL5x11L196x2636L99x13L1072x16ML6M15x10",
  "L3995x5L583x6841L30M12L3M3L10x1734L569x7L31xL10x4L81xL10x6L30x2M5Lx10L48M7L15x10L10xL7x",
  "L21x5L19x432L58x198l32L59x5l25x2L25x44L75x4MLC55x7M4L13x64L2NLMx11C2L5x9L7382x41L32x97",
  "L115x8701L4xL7xL2xL291x15Lx29L3x2Lx14L4x8L396x2308L107x5L13x3L9x7L10x2LM2Li4x3932L214l26",
  "e10L3x3L436x6L23x15L17x15M46x2M23x9L116x60L246x10L39x2L53l7C2M3L3C6i8M8L2M7L30M4L13l6L40",
  "N2x21N66M3Nx122L20x12L20x12N87x9L25x135l85xl71xl2x2lx2l2x2l4xl12xlxl7xl65xl4x2l8xl7xl28x",
  "l4xl5xlx3l7xl340x2l25nl25nl31nl25nl31nl25nl31nl25nl31nl25nl8x2e50L512M55L4M50L8ML14ML7",
  "x15M5xM15x1104L31x6L6x213M7xM17x2M7xM2xM5x5l62x33Mx112L45x3M7L7x2L10x4L2x320L30Mx17L44M4",
  "L10x5Nx464L28M4L10x214L30M2L11x4Lx192L31xL3ML2ML7M2L5Mx8L2x224L7xL4xL2xL15xR197x2R9M7x41",
  "r34R34M7Rx4R10x4R2x785A68x76A61x194bd2bxb2d12bd4bd7xd2xdx2dxd10xd4xdxdx6dx4dxdxdxd3xd2xd",
  "x2dxdxdxdxdxd2xdx2d4xd7xd4xd4xdxbd2bdb2d3xd8bd4bd3x5d2bxb2d3xd8bd4bd3x52N2x270N44x4N100",
  "x12N15x2N15xN15xN37x11e10N5n27l4Nl32L26l3N3L32lL28Nx56L26l3x13l44x4n9x7l2x14N6x154N984L",
  "x3LN16x3N13x3N116L12N89Lx6N12x4Nx15N12x4N56x8N10x6N40x8N30x2N2L10x4L2x14L9x39N340L4x8N14",
  "x2N5L3N5x3N7L4x3L2N29L3N11L5N6LxLx4L3N10L3x2LN8L3x4LN7L2x7N147xN55L37e10Lx1029L42720x32",
  "L4382x2L5774x2L7473x15L622x2466l542x1506L4939x5L8490x707718i240x196112"]

/-- The runs of a table, from its signs and numerals. -/
def readRuns : List Char → List (Nat × Standing)
  | [] => []
  | c :: cs =>
    match Standing.signs.lookup c with
    | none => readRuns cs
    | some standing =>
      let numeral := cs.takeWhile Char.isDigit
      (if numeral.isEmpty then 1 else Decimal.value numeral, standing) :: readRuns cs

/-- The runs from U+0080 on. -/
def runs : List (Nat × Standing) :=
  readRuns (runTable.flatMap String.toList)

/-- The standing of the character behind `n` others from the first run on. -/
def standingIn (n : Nat) : List (Nat × Standing) → Standing
  | [] => ⟨.refused, false⟩
  | (count, standing) :: runs => if n < count then standing else standingIn (n - count) runs

/-- The standing of a character from U+0080 on. -/
def standing (c : Char) : Standing :=
  standingIn (c.toNat - 0x80) runs

/-- The replacements that have characters below U+0080: behind the number of a
character, which `@` marks, what it stands for, and its successors in turn. -/
def replacementTable : List String := [
  "@AA a @B2 2 3 @B9 1 o @BC 1⁄4 1⁄2 3⁄4 @130 i̇ @132 ij ij @13F l· l· @149 ʼn @17F s",
  "@1C4 dž dž dž lj lj lj nj nj nj @1F1 dz dz dz @2B0 h @2B2 j r @2B7 w y @2E1 l s x",
  "@37E ; @1D2C a @1D2E b @1D30 d e @1D33 g h i j k l m n @1D3C o @1D3E p r t u w a",
  "@1D47 b d e @1D4D g @1D4F k m @1D52 o @1D56 p t u @1D5B v @1D62 i r u v @1D9C c",
  "@1DA0 f @1DBB z @1E9A aʾ @203C !! @2070 0 i @2074 4 5 6 7 8 9 + @207C = ( ) n 0 1 2",
  "3 4 5 6 7 8 9 + @208C = ( ) @2090 a e o x @2095 h k l m n p s t @20A8 rs @2102 c °c",
  "@2109 °f g h h h h @2110 i i l l @2115 n no @2119 p q r r r @2120 sm tel tm @2124 z",
  "@2128 z @212A k @212C b c @212F e e f @2133 m o @2139 i @213B fax @2145 d d e i j",
  "@2150 1⁄7 1⁄9 1⁄10 1⁄3 2⁄3 1⁄5 2⁄5 3⁄5 4⁄5 1⁄6 5⁄6 1⁄8 3⁄8 5⁄8 7⁄8 1⁄ i ii iii iv v",
  "vi vii viii ix x xi xii l c d m i ii iii iv v vi vii viii ix x xi xii l c d m @2189",
  "0⁄3 @2460 1 2 3 4 5 6 7 8 9 10 11 12 13 14 15 16 17 18 19 20 (1) (2) (3) (4) (5)",
  "(6) (7) (8) (9) (10) (11) (12) (13) (14) (15) (16) (17) (18) (19) (20) @249C (a)",
  "(b) (c) (d) (e) (f) (g) (h) (i) (j) (k) (l) (m) (n) (o) (p) (q) (r) (s) (t) (u) (v)",
  "(w) (x) (y) (z) a b c d e f g h i j k l m n o p q r s t u v w x y z a b c d e f g h",
  "i j k l m n o p q r s t u v w x y z 0 @2A75 == === @2C7C j v @3002 . @3200 (ᄀ) (ᄂ)",
  "(ᄃ) (ᄅ) (ᄆ) (ᄇ) (ᄉ) (ᄋ) (ᄌ) (ᄎ) (ᄏ) (ᄐ) (ᄑ) (ᄒ) (가) (나) (다) (라) (마) (바) (사) (아) (자)",
  "(차) (카) (타) (파) (하) (주) (오전) (오후) @3220 (一) (二) (三) (四) (五) (六) (七) (八) (九) (十) (月)",
  "(火) (水) (木) (金) (土) (日) (株) (有) (社) (名) (特) (財) (祝) (労) (代) (呼) (学) (監) (企) (資) (協)",
  "(祭) (休) (自) (至) @3250 pte 21 22 23 24 25 26 27 28 29 30 31 32 33 34 35 @32B1 36 37",
  "38 39 40 41 42 43 44 45 46 47 48 49 50 1月 2月 3月 4月 5月 6月 7月 8月 9月 10月 11月 12月 hg",
  "erg ev ltd @3358 0点 1点 2点 3点 4点 5点 6点 7点 8点 9点 10点 11点 12点 13点 14点 15点 16点 17点 18点",
  "19点 20点 21点 22点 23点 24点 hpa da au bar ov pc dm dm2 dm3 iu @3380 pa na μa ma ka kb",
  "mb gb cal kcal pf nf μf μg mg kg hz khz mhz ghz thz μl ml dl kl fm nm μm mm cm km",
  "mm2 cm2 m2 km2 mm3 cm3 m3 km3 m∕s m∕s2 pa kpa mpa gpa rad rad∕s rad∕s2 ps ns μs ms",
  "pv nv μv mv kv mv pw nw μw mw kw mw kω mω @33C3 bq cc cd c∕kg @33C8 db gy ha hp in",
  "kk km kt lm ln log lx mb mil mol ph @33D9 ppm pr sr sv wb v∕m a∕m 1日 2日 3日 4日 5日 6日",
  "7日 8日 9日 10日 11日 12日 13日 14日 15日 16日 17日 18日 19日 20日 21日 22日 23日 24日 25日 26日 27日",
  "28日 29日 30日 31日 gal @A7F1 s c f q @FB00 ff fi fl ffi ffl st st @FB29 + @FE10 ,",
  "@FE14 ; ! @FE33 _ _ ( ) @FE4D _ _ _ , @FE54 ; @FE57 ! @FE59 ( ) @FE60 & * + - @FE66",
  "= @FE69 $ @FF01 ! @FF04 $ @FF06 & ' ( ) * + , - . @FF10 0 1 2 3 4 5 6 7 8 9 @FF1B ;",
  "@FF1D = @FF21 a b c d e f g h i j k l m n o p q r s t u v w x y z @FF3F _ @FF41 a b",
  "c d e f g h i j k l m n o p q r s t u v w x y z @FF5E ~ @FF61 . @107A5 q @1CCD6 a b",
  "c d e f g h i j k l m n o p q r s t u v w x y z 0 1 2 3 4 5 6 7 8 9 @1D400 a b c d",
  "e f g h i j k l m n o p q r s t u v w x y z a b c d e f g h i j k l m n o p q r s t",
  "u v w x y z a b c d e f g h i j k l m n o p q r s t u v w x y z a b c d e f g",
  "@1D456 i j k l m n o p q r s t u v w x y z a b c d e f g h i j k l m n o p q r s t",
  "u v w x y z a b c d e f g h i j k l m n o p q r s t u v w x y z a @1D49E c d @1D4A2",
  "g @1D4A5 j k @1D4A9 n o p q @1D4AE s t u v w x y z a b c d @1D4BB f @1D4BD h i j k",
  "l m n @1D4C5 p q r s t u v w x y z a b c d e f g h i j k l m n o p q r s t u v w x",
  "y z a b c d e f g h i j k l m n o p q r s t u v w x y z a b @1D507 d e f g @1D50D j",
  "k l m n o p q @1D516 s t u v w x y @1D51E a b c d e f g h i j k l m n o p q r s t u",
  "v w x y z a b @1D53B d e f g @1D540 i j k l m @1D546 o @1D54A s t u v w x y @1D552",
  "a b c d e f g h i j k l m n o p q r s t u v w x y z a b c d e f g h i j k l m n o p",
  "q r s t u v w x y z a b c d e f g h i j k l m n o p q r s t u v w x y z a b c d e f",
  "g h i j k l m n o p q r s t u v w x y z a b c d e f g h i j k l m n o p q r s t u v",
  "w x y z a b c d e f g h i j k l m n o p q r s t u v w x y z a b c d e f g h i j k l",
  "m n o p q r s t u v w x y z a b c d e f g h i j k l m n o p q r s t u v w x y z a b",
  "c d e f g h i j k l m n o p q r s t u v w x y z a b c d e f g h i j k l m n o p q r",
  "s t u v w x y z a b c d e f g h i j k l m n o p q r s t u v w x y z a b c d e f g h",
  "i j k l m n o p q r s t u v w x y z a b c d e f g h i j k l m n o p q r s t u v w x",
  "y z @1D7CE 0 1 2 3 4 5 6 7 8 9 0 1 2 3 4 5 6 7 8 9 0 1 2 3 4 5 6 7 8 9 0 1 2 3 4 5",
  "6 7 8 9 0 1 2 3 4 5 6 7 8 9 @1F101 0, 1, 2, 3, 4, 5, 6, 7, 8, 9, @1F110 (a) (b) (c)",
  "(d) (e) (f) (g) (h) (i) (j) (k) (l) (m) (n) (o) (p) (q) (r) (s) (t) (u) (v) (w) (x)",
  "(y) (z) 〔s〕 c r cd wz @1F130 a b c d e f g h i j k l m n o p q r s t u v w x y z hv",
  "mv sd ss ppv wc @1F16A mc md mr @1F190 dj @1FBF0 0 1 2 3 4 5 6 7 8 9"]

/-- The replacements that a list of words tells, from the character numbered
`next` on. -/
def readReplacements (next : Nat) : List (List Char) → List (Nat × List Char)
  | [] => []
  | ('@' :: numeral) :: words =>
    readReplacements ((Hex.take? numeral.length 0 numeral).elim next Prod.fst) words
  | replacement :: words => (next, replacement) :: readReplacements (next + 1) words

/-- The characters that stand for a text with characters below U+0080. -/
def replacements : List (Nat × List Char) :=
  readReplacements 0 (replacementTable.flatMap fun line => List.splitOn ' ' line.toList)

/-- What stands in a name for a character: a letter in lower case, the
replacement of a character, or nothing. -/
def spelling (c : Char) : List Char :=
  if c.toNat < 0x80 then [c.toLower]
  else match replacements.lookup c.toNat with
    | some text => text
    | none => if (standing c).kind == .ignored then [] else [c]

/-- The marks that end a conjunct letter, behind which a joiner may stand. -/
def viramas : List Nat := [
  0x94D, 0x9CD, 0xA4D, 0xACD, 0xB4D, 0xBCD, 0xC4D, 0xCCD, 0xD3B, 0xD3C, 0xD4D, 0xDCA,
  0xE3A, 0xEBA, 0xF84, 0x1039, 0x103A, 0x1714, 0x1715, 0x1734, 0x17D2, 0x1A60, 0x1B44,
  0x1BAA, 0x1BAB, 0x1BF2, 0x1BF3, 0x2D7F, 0xA806, 0xA82C, 0xA8C4, 0xA953, 0xA9C0, 0xAAF6,
  0xABED, 0x10A3F, 0x11046, 0x11070, 0x1107F, 0x110B9, 0x11133, 0x11134, 0x111C0,
  0x11235, 0x112EA, 0x1134D, 0x11442, 0x114C2, 0x115BF, 0x1163F, 0x116B6, 0x1172B,
  0x11839, 0x1193D, 0x1193E, 0x119E0, 0x11A34, 0x11A47, 0x11A99, 0x11C3F, 0x11D44,
  0x11D45, 0x11D97]

end VersionPick.Host

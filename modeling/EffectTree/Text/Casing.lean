import EffectTree.Text.Property

/-!
# Letter case

Lower, upper and title case of characters and of whole texts. A letter may become several, and a
sigma that ends a word has a lower-case form of its own.
-/

namespace EffectTree.Text

def lowerShifts : ShiftTable := .ofRows
  ["192 22 1 32 2 6 1 32 34 23 2 1 4 2 2 1 3 7 2 1 3 22 2 1 2 0 1 -121 1 2 2 1 4 0 1 210 1 1 2 1",
   "2 0 1 206 1 0 1 1 2 1 1 205 1 0 1 1 3 0 1 79 1 0 1 202 1 0 1 203 1 0 1 1 2 0 1 205 1 0 1 207",
   "2 0 1 211 1 0 1 209 1 0 1 1 4 0 1 211 1 0 1 213 2 0 1 214 1 2 2 1 2 0 1 218 1 0 1 1 2 0 1",
   "218 3 0 1 1 2 0 1 218 1 0 1 1 2 1 1 217 1 1 2 1 2 0 1 219 1 0 1 1 4 0 1 1 8 0 1 2 1 0 1 1 2",
   "0 1 2 1 0 1 1 2 0 1 2 1 8 2 1 3 8 2 1 3 0 1 2 1 1 2 1 2 0 1 -97 1 0 1 -56 1 19 2 1 2 0 1",
   "-130 2 8 2 1 8 0 1 10795 1 0 1 1 2 0 1 -163 1 0 1 10792 3 0 1 1 2 0 1 -195 1 0 1 69 1 0 1 71",
   "1 4 2 1 290 1 2 1 4 0 1 1 9 0 1 116 7 0 1 38 2 2 1 37 2 0 1 64 2 1 1 63 2 16 1 32 2 8 1 32",
   "36 0 1 8 9 11 2 1 6 0 1 -60 3 0 1 1 2 0 1 -7 1 0 1 1 3 2 1 -130 1 15 1 80 1 31 1 32 49 16 2",
   "1 10 26 2 1 2 0 1 15 1 6 2 1 3 47 2 1 3 37 1 48 2890 37 1 7264 2 0 1 7264 6 0 1 7264 723 79",
   "1 38864 1 5 1 8 2203 42 1 -3008 3 2 1 -3008 321 74 2 1 10 0 1 -7615 2 47 2 1 10 7 1 -8 9 5 1",
   "-8 11 7 1 -8 9 7 1 -8 9 5 1 -8 12 3 2 -8 9 7 1 -8 25 7 1 -8 9 7 1 -8 9 7 1 -8 9 1 1 -8 1 1 1",
   "-74 1 0 1 -9 12 3 1 -86 1 0 1 -9 12 1 1 -8 1 1 1 -100 13 1 1 -8 1 1 1 -112 1 0 1 -7 12 1 1",
   "-128 1 1 1 -126 1 0 1 -9 298 0 1 -7517 4 0 1 -8383 1 0 1 -8262 7 0 1 28 46 15 1 16 20 0 1 1",
   "819 25 1 26 1841 47 1 48 49 0 1 1 2 0 1 -10743 1 0 1 -3814 1 0 1 -10727 3 2 2 1 2 0 1 -10780",
   "1 0 1 -10749 1 0 1 -10783 1 0 1 -10782 2 0 1 1 3 0 1 1 9 1 1 -10815 1 49 2 1 9 1 2 1 5 0 1 1",
   "31054 22 2 1 20 13 2 1 136 6 2 1 4 30 2 1 11 1 2 1 2 0 1 -35332 1 4 2 1 5 0 1 1 2 0 1 -42280",
   "3 1 2 1 4 9 2 1 2 0 1 -42308 1 0 1 -42319 1 0 1 -42315 1 0 1 -42305 1 0 1 -42308 2 0 1",
   "-42258 1 0 1 -42282 1 0 1 -42261 1 0 1 928 1 7 2 1 2 0 1 -48 1 0 1 -42307 1 0 1 -35384 1 1 2",
   "1 7 0 1 1 6 1 2 1 29 0 1 1 22316 25 1 32 1222 39 1 40 137 35 1 40 157 10 1 39 2 14 1 39 2 6",
   "1 39 2 1 1 39 1771 50 1 64 3054 31 1 32 21889 31 1 32 31393 33 1 34"]

def upperShifts : ShiftTable := .ofRows
  ["181 0 1 743 43 22 1 -32 2 6 1 -32 1 0 1 121 2 23 2 -1 2 0 1 -232 2 2 2 -1 3 7 2 -1 3 22 2 -1",
   "3 2 2 -1 1 0 1 -300 1 0 1 195 3 1 2 -1 3 0 1 -1 4 0 1 -1 6 0 1 -1 3 0 1 97 4 0 1 -1 1 0 1",
   "163 4 0 1 130 3 2 2 -1 3 0 1 -1 5 0 1 -1 3 0 1 -1 4 1 2 -1 3 0 1 -1 4 0 1 -1 2 0 1 56 6 0 1",
   "-1 1 0 1 -2 2 0 1 -1 1 0 1 -2 2 0 1 -1 1 0 1 -2 2 7 2 -1 1 0 1 -79 2 8 2 -1 3 0 1 -1 1 0 1",
   "-2 2 0 1 -1 4 19 2 -1 4 8 2 -1 9 0 1 -1 3 1 1 10815 2 0 1 -1 5 4 2 -1 1 0 1 10783 1 0 1",
   "10780 1 0 1 10782 1 0 1 -210 1 0 1 -206 2 1 1 -205 2 0 1 -202 2 0 1 -203 1 0 1 42319 4 0 1",
   "-205 1 0 1 42315 2 0 1 -207 2 0 1 42280 1 0 1 42308 2 0 1 -209 1 0 1 -211 1 0 1 42308 1 0 1",
   "10743 1 0 1 42305 3 0 1 -211 2 0 1 10749 1 0 1 -213 3 0 1 -214 8 0 1 10727 3 0 1 -218 2 0 1",
   "42307 1 0 1 -218 4 0 1 42282 1 0 1 -218 1 0 1 -69 1 1 1 -217 1 0 1 -71 6 0 1 -219 11 0 1",
   "42261 1 0 1 42258 167 0 1 84 44 1 2 -1 4 0 1 -1 4 2 1 130 47 0 1 -38 1 2 1 -37 2 16 1 -32 1",
   "0 1 -31 1 8 1 -32 1 0 1 -64 1 1 1 -63 2 0 1 -62 1 0 1 -57 4 0 1 -47 1 0 1 -54 1 0 1 -8 2 11",
   "2 -1 1 0 1 -86 1 0 1 -80 1 0 1 7 1 0 1 -116 2 0 1 -96 3 0 1 -1 3 0 1 -1 53 31 1 -32 1 15 1",
   "-80 2 16 2 -1 10 26 2 -1 3 6 2 -1 1 0 1 -15 2 47 2 -1 50 37 1 -48 2890 42 1 3008 3 2 1 3008",
   "761 5 1 -8 2179 0 1 -6254 1 0 1 -6253 1 0 1 -6244 1 1 1 -6242 1 0 1 -6243 1 0 1 -6236 1 0 1",
   "-6181 1 0 1 35266 241 0 1 35332 4 0 1 3814 17 0 1 35384 115 74 2 -1 6 0 1 -59 6 47 2 -1 1 7",
   "1 8 9 5 1 8 11 7 1 8 9 7 1 8 9 5 1 8 12 3 2 8 9 7 1 8 9 1 1 74 1 3 1 86 1 1 1 100 1 1 1 128",
   "1 1 1 112 1 1 1 126 51 1 1 8 13 0 1 -7205 18 1 1 8 15 1 1 8 4 0 1 7 361 0 1 -28 34 15 1 -16",
   "5 0 1 -1 844 25 1 -26 1863 47 1 -48 2 0 1 -1 4 0 1 -10795 1 0 1 -10792 2 2 2 -1 7 0 1 -1 3 0",
   "1 -1 11 49 2 -1 9 1 2 -1 5 0 1 -1 13 37 1 -7264 2 0 1 -7264 6 0 1 -7264 30996 22 2 -1 20 13",
   "2 -1 136 6 2 -1 4 30 2 -1 11 1 2 -1 3 4 2 -1 5 0 1 -1 5 1 2 -1 1 0 1 48 3 9 2 -1 12 7 2 -1 5",
   "1 2 -1 7 0 1 -1 6 1 2 -1 29 0 1 -1 861 0 1 -928 29 79 1 -38864 21378 25 1 -32 1230 39 1 -40",
   "137 35 1 -40 156 10 1 -39 2 14 1 -39 2 6 1 -39 2 1 1 -39 1796 50 1 -64 3022 31 1 -32 21889",
   "31 1 -32 31395 33 1 -34"]

/-- Letters whose one-letter title case is not their upper case. -/
def titleShifts : ShiftTable := .ofRows
  ["452 0 1 1 1 0 1 0 1 0 1 -1 1 0 1 1 1 0 1 0 1 0 1 -1 1 0 1 1 1 0 1 0 1 0 1 -1 37 0 1 1 1 0 1",
   "0 1 0 1 -1 3805 42 1 0 3 2 1 0 3713 7 1 8 1 7 1 0 1 7 1 8 1 7 1 0 1 7 1 8 1 7 1 0 4 0 1 9 9",
   "0 1 0 7 0 1 9 9 0 1 0 39 0 1 9 9 0 1 0"]

def lowerExpansions : List (Nat × List Nat) :=
  [(0x130, [0x69, 0x307])]

def upperExpansions : List (Nat × List Nat) :=
  [(0xdf, [0x53, 0x53]), (0x149, [0x2bc, 0x4e]), (0x1f0, [0x4a, 0x30c]),
   (0x390, [0x399, 0x308, 0x301]), (0x3b0, [0x3a5, 0x308, 0x301]), (0x587, [0x535, 0x552]),
   (0x1e96, [0x48, 0x331]), (0x1e97, [0x54, 0x308]), (0x1e98, [0x57, 0x30a]),
   (0x1e99, [0x59, 0x30a]), (0x1e9a, [0x41, 0x2be]), (0x1f50, [0x3a5, 0x313]),
   (0x1f52, [0x3a5, 0x313, 0x300]), (0x1f54, [0x3a5, 0x313, 0x301]),
   (0x1f56, [0x3a5, 0x313, 0x342]), (0x1f80, [0x1f08, 0x399]), (0x1f81, [0x1f09, 0x399]),
   (0x1f82, [0x1f0a, 0x399]), (0x1f83, [0x1f0b, 0x399]), (0x1f84, [0x1f0c, 0x399]),
   (0x1f85, [0x1f0d, 0x399]), (0x1f86, [0x1f0e, 0x399]), (0x1f87, [0x1f0f, 0x399]),
   (0x1f88, [0x1f08, 0x399]), (0x1f89, [0x1f09, 0x399]), (0x1f8a, [0x1f0a, 0x399]),
   (0x1f8b, [0x1f0b, 0x399]), (0x1f8c, [0x1f0c, 0x399]), (0x1f8d, [0x1f0d, 0x399]),
   (0x1f8e, [0x1f0e, 0x399]), (0x1f8f, [0x1f0f, 0x399]), (0x1f90, [0x1f28, 0x399]),
   (0x1f91, [0x1f29, 0x399]), (0x1f92, [0x1f2a, 0x399]), (0x1f93, [0x1f2b, 0x399]),
   (0x1f94, [0x1f2c, 0x399]), (0x1f95, [0x1f2d, 0x399]), (0x1f96, [0x1f2e, 0x399]),
   (0x1f97, [0x1f2f, 0x399]), (0x1f98, [0x1f28, 0x399]), (0x1f99, [0x1f29, 0x399]),
   (0x1f9a, [0x1f2a, 0x399]), (0x1f9b, [0x1f2b, 0x399]), (0x1f9c, [0x1f2c, 0x399]),
   (0x1f9d, [0x1f2d, 0x399]), (0x1f9e, [0x1f2e, 0x399]), (0x1f9f, [0x1f2f, 0x399]),
   (0x1fa0, [0x1f68, 0x399]), (0x1fa1, [0x1f69, 0x399]), (0x1fa2, [0x1f6a, 0x399]),
   (0x1fa3, [0x1f6b, 0x399]), (0x1fa4, [0x1f6c, 0x399]), (0x1fa5, [0x1f6d, 0x399]),
   (0x1fa6, [0x1f6e, 0x399]), (0x1fa7, [0x1f6f, 0x399]), (0x1fa8, [0x1f68, 0x399]),
   (0x1fa9, [0x1f69, 0x399]), (0x1faa, [0x1f6a, 0x399]), (0x1fab, [0x1f6b, 0x399]),
   (0x1fac, [0x1f6c, 0x399]), (0x1fad, [0x1f6d, 0x399]), (0x1fae, [0x1f6e, 0x399]),
   (0x1faf, [0x1f6f, 0x399]), (0x1fb2, [0x1fba, 0x399]), (0x1fb3, [0x391, 0x399]),
   (0x1fb4, [0x386, 0x399]), (0x1fb6, [0x391, 0x342]), (0x1fb7, [0x391, 0x342, 0x399]),
   (0x1fbc, [0x391, 0x399]), (0x1fc2, [0x1fca, 0x399]), (0x1fc3, [0x397, 0x399]),
   (0x1fc4, [0x389, 0x399]), (0x1fc6, [0x397, 0x342]), (0x1fc7, [0x397, 0x342, 0x399]),
   (0x1fcc, [0x397, 0x399]), (0x1fd2, [0x399, 0x308, 0x300]), (0x1fd3, [0x399, 0x308, 0x301]),
   (0x1fd6, [0x399, 0x342]), (0x1fd7, [0x399, 0x308, 0x342]), (0x1fe2, [0x3a5, 0x308, 0x300]),
   (0x1fe3, [0x3a5, 0x308, 0x301]), (0x1fe4, [0x3a1, 0x313]), (0x1fe6, [0x3a5, 0x342]),
   (0x1fe7, [0x3a5, 0x308, 0x342]), (0x1ff2, [0x1ffa, 0x399]), (0x1ff3, [0x3a9, 0x399]),
   (0x1ff4, [0x38f, 0x399]), (0x1ff6, [0x3a9, 0x342]), (0x1ff7, [0x3a9, 0x342, 0x399]),
   (0x1ffc, [0x3a9, 0x399]), (0xfb00, [0x46, 0x46]), (0xfb01, [0x46, 0x49]),
   (0xfb02, [0x46, 0x4c]), (0xfb03, [0x46, 0x46, 0x49]), (0xfb04, [0x46, 0x46, 0x4c]),
   (0xfb05, [0x53, 0x54]), (0xfb06, [0x53, 0x54]), (0xfb13, [0x544, 0x546]),
   (0xfb14, [0x544, 0x535]), (0xfb15, [0x544, 0x53b]), (0xfb16, [0x54e, 0x546]),
   (0xfb17, [0x544, 0x53d])]

/-- Letters whose title case is several letters and differs from their upper case. -/
def titleExpansions : List (Nat × List Nat) :=
  [(0xdf, [0x53, 0x73]), (0x587, [0x535, 0x582]), (0x1fb2, [0x1fba, 0x345]),
   (0x1fb4, [0x386, 0x345]), (0x1fb7, [0x391, 0x342, 0x345]), (0x1fc2, [0x1fca, 0x345]),
   (0x1fc4, [0x389, 0x345]), (0x1fc7, [0x397, 0x342, 0x345]), (0x1ff2, [0x1ffa, 0x345]),
   (0x1ff4, [0x38f, 0x345]), (0x1ff7, [0x3a9, 0x342, 0x345]), (0xfb00, [0x46, 0x66]),
   (0xfb01, [0x46, 0x69]), (0xfb02, [0x46, 0x6c]), (0xfb03, [0x46, 0x66, 0x69]),
   (0xfb04, [0x46, 0x66, 0x6c]), (0xfb05, [0x53, 0x74]), (0xfb06, [0x53, 0x74]),
   (0xfb13, [0x544, 0x576]), (0xfb14, [0x544, 0x565]), (0xfb15, [0x544, 0x56b]),
   (0xfb16, [0x54e, 0x576]), (0xfb17, [0x544, 0x56d])]

/-- The several-letter image of a character, if a table lists one. -/
def expansion? (table : List (Nat × List Nat)) (c : Char) : Option (List Char) :=
  (table.find? (·.1 = c.toNat)).map fun entry => entry.2.map Char.ofNat

def lowerChar (c : Char) : List Char :=
  if c.toNat < 128 then [c.toLower]
  else match expansion? lowerExpansions c with
    | some cs => cs
    | none => [lowerShifts.apply c]

def upperChar (c : Char) : List Char :=
  if c.toNat < 128 then [c.toUpper]
  else match expansion? upperExpansions c with
    | some cs => cs
    | none => [upperShifts.apply c]

def titleChar (c : Char) : List Char :=
  if c.toNat < 128 then [c.toUpper]
  else match expansion? titleExpansions c with
    | some cs => cs
    | none => match titleShifts.lookup? c with
      | some moved => [moved]
      | none => upperChar c

/-- A capital sigma is final when a cased letter stands before it and none follows, looking through
ignorable characters on both sides. -/
def isFinalSigma (before after : List Char) : Bool :=
  (match before.dropWhile isCaseIgnorable with
    | c :: _ => isCased c
    | [] => false) &&
  (match after.dropWhile isCaseIgnorable with
    | c :: _ => !isCased c
    | [] => true)

/-- Lower case of the characters that follow `before`, which is kept reversed. -/
def lowerFrom (before : List Char) : List Char → List (List Char)
  | [] => []
  | c :: rest =>
      let image :=
        if c.toNat = 0x3a3 then
          [Char.ofNat (if isFinalSigma before rest then 0x3c2 else 0x3c3)]
        else lowerChar c
      image :: lowerFrom (c :: before) rest

def lower (s : String) : String := String.ofList (lowerFrom [] s.toList).flatten

def upper (s : String) : String := String.ofList (s.toList.flatMap upperChar)

def capitalize (s : String) : String :=
  match s.toList with
  | [] => ""
  | c :: rest => String.ofList (titleChar c ++ (lowerFrom [c] rest).flatten)

/-- Title case for each character that no cased character precedes, lower case for the others. -/
def titleFrom (before : List Char) (inWord : Bool) : List Char → List (List Char)
  | [] => []
  | c :: rest =>
      let image :=
        if !inWord then titleChar c
        else if c.toNat = 0x3a3 then
          [Char.ofNat (if isFinalSigma before rest then 0x3c2 else 0x3c3)]
        else lowerChar c
      image :: titleFrom (c :: before) (isCased c) rest

def title (s : String) : String := String.ofList (titleFrom [] false s.toList).flatten

end EffectTree.Text

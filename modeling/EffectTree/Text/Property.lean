import EffectTree.Text.CodePoints

/-!
# Character properties

The properties of characters that the language's text rules mention: printable, blank, digit, letter
of an identifier, cased, ignored by casing. The tables cover the code points from 128 on; below that
each property is a short rule of its own.
-/

namespace EffectTree.Text

def printablePoints : CodePoints := .ofRows
  ["161 11 1 713 2 5 4 6 1 0 1 19 1 396 1 37 2 49 2 2 1 54 8 26 4 5 17 21 1 191 1 47 2 58 2 100",
   "14 58 2 48 2 14 1 27 2 0 1 10 5 30 9 73 1 160 1 7 2 1 2 21 1 6 1 0 3 3 2 8 2 1 2 3 8 0 4 1 1",
   "4 2 24 2 2 1 5 4 1 2 21 1 6 1 1 1 1 1 1 2 0 1 4 4 1 2 2 3 0 7 3 1 0 7 16 10 2 1 8 1 2 1 21 1",
   "6 1 1 1 4 2 9 1 2 1 2 2 0 15 3 2 11 7 6 1 2 1 7 2 1 2 21 1 6 1 1 1 4 2 8 2 1 2 2 7 2 4 1 1 4",
   "2 17 10 1 1 5 3 2 1 3 3 1 1 0 1 1 3 1 3 2 3 11 4 4 3 2 1 3 2 0 6 0 14 20 5 12 1 2 1 22 1 15",
   "2 8 1 2 1 3 7 1 1 2 2 0 2 3 2 9 7 21 1 2 1 22 1 9 1 4 2 8 1 2 1 3 7 1 6 1 1 3 2 9 1 1 13 12",
   "1 2 1 50 1 2 1 5 4 15 2 25 1 2 1 17 3 23 1 8 1 0 2 6 3 0 4 5 1 0 1 7 6 9 2 2 12 57 4 28 37 1",
   "1 0 1 4 1 23 1 0 1 22 2 4 1 0 1 5 2 9 2 3 32 71 1 35 4 38 1 35 1 14 1 12 37 197 1 0 5 0 2",
   "376 1 3 2 6 1 0 1 3 2 40 1 3 2 32 1 3 2 6 1 0 1 3 2 14 1 56 1 3 2 66 2 31 3 25 6 85 2 5 2",
   "639 1 27 3 88 7 21 9 23 9 19 12 12 1 2 1 1 12 93 2 9 6 9 6 13 1 10 6 88 7 42 5 69 10 30 1 11",
   "4 11 4 0 3 41 2 4 11 43 4 25 6 10 3 61 2 64 1 28 2 10 6 9 6 13 2 30 49 76 3 46 1 115 8 59 3",
   "14 3 59 7 42 2 10 8 42 5 533 2 5 2 37 2 5 2 7 1 0 1 0 1 0 1 30 2 52 1 14 1 13 2 5 1 18 2 2 1",
   "8 17 23 8 46 17 1 2 26 1 12 3 32 15 32 15 139 4 662 25 10 21 1811 2 31 1 348 5 44 1 0 5 0 2",
   "55 7 1 14 23 9 6 1 6 1 6 1 6 1 6 1 6 1 6 1 6 1 125 34 25 1 88 12 213 26 11 5 62 1 85 2 102 5",
   "42 1 93 1 83 12 46 1 29292 3 54 9 347 20 183 8 202 5 1 1 0 1 4 24 58 3 9 6 55 8 69 8 11 6",
   "115 11 29 3 77 1 10 4 32 1 54 9 13 2 9 2 102 24 27 10 5 2 5 2 5 9 6 1 6 1 59 4 125 2 9 6",
   "11171 12 22 4 48 8452 365 2 105 38 6 12 4 5 25 1 4 1 0 1 1 1 1 1 124 16 444 2 53 7 0 32 41 6",
   "50 1 18 1 3 4 4 1 134 4 189 3 5 2 5 2 5 2 2 3 6 1 6 13 1 2 11 1 25 1 18 1 1 1 14 2 13 34 122",
   "5 2 4 44 3 87 1 12 3 0 47 45 130 28 3 48 15 27 4 35 9 29 5 42 5 29 1 36 4 13 42 157 2 9 6 35",
   "4 35 4 39 8 51 11 11 1 14 1 6 1 1 1 10 1 14 1 6 1 1 67 310 9 21 10 7 24 5 1 41 1 8 69 5 2 0",
   "1 43 1 1 3 0 2 22 1 71 8 8 48 18 1 1 5 32 3 26 5 0 64 55 4 19 2 49 1 1 5 7 1 2 1 28 2 2 4 9",
   "7 8 7 63 32 38 4 11 9 53 3 28 2 26 5 25 7 3 12 6 80 72 55 50 13 50 7 45 8 9 294 30 1 41 1 2",
   "2 1 78 39 8 41 22 25 38 27 20 22 9 77 4 35 9 61 1 4 13 24 7 9 6 52 1 17 8 38 9 95 1 19 11 17",
   "1 43 65 6 1 0 1 3 1 14 1 10 6 58 5 9 6 3 1 7 2 1 2 21 1 6 1 1 1 4 1 9 2 1 2 2 2 0 6 0 5 6 2",
   "6 3 4 139 91 1 4 30 71 8 9 166 53 2 37 34 68 11 9 6 12 19 57 6 9 54 26 2 14 4 22 185 59 100",
   "82 12 7 2 0 2 7 1 1 1 29 1 1 2 11 9 9 70 7 2 45 2 10 27 71 8 82 13 72 263 8 1 44 1 13 10 28",
   "3 31 2 21 1 13 73 6 1 1 1 43 3 0 1 1 1 8 8 9 6 5 1 1 1 36 1 1 1 5 7 9 310 24 183 0 15 49 13",
   "922 102 110 1 4 11 195 2636 98 13 1070 4049 582 8633 568 7 30 1 9 4 80 1 9 6 29 2 5 10 69 10",
   "9 1 6 1 20 5 18 688 90 101 74 4 56 7 16 64 4 11 1 14 6135 8 1237 42 8 8935 3 1 6 1 1 1 290",
   "45 2 17 3 8 395 2308 106 5 12 3 8 7 9 2 3 4704 45 2 22 9 115 60 245 10 38 2 73 8 111 21 69",
   "154 19 12 86 9 24 135 84 1 70 1 1 2 0 2 1 2 3 1 11 1 0 1 6 1 64 1 3 2 7 1 6 1 27 1 3 1 4 1 0",
   "3 6 1 339 2 291 2 701 15 4 1 14 1104 30 225 6 1 16 2 6 1 1 1 4 213 44 3 13 2 9 4 1 320 30 17",
   "57 5 0 1248 6 1 3 1 1 1 14 1 196 2 15 41 75 4 9 4 1 785 67 76 60 194 3 1 26 1 1 1 0 2 0 1 9",
   "1 3 1 0 1 0 6 0 4 0 1 0 1 0 1 2 1 1 1 0 2 0 1 0 1 0 1 0 1 0 1 1 1 0 2 3 1 6 1 3 1 3 1 0 1 9",
   "1 16 5 2 1 4 1 16 52 1 270 43 4 99 12 14 2 14 1 14 1 36 10 173 56 28 13 43 4 8 7 1 14 5 154",
   "983 5 15 3 12 3 115 12 88 7 11 4 0 15 11 4 55 8 9 6 39 8 29 2 1 78 339 12 13 2 4 3 4 3 6 9",
   "28 3 10 5 5 10 9 6 7 8 6 9 146 1 54 37 9 1030 42719 32 4152 7 221 2 5761 14 7472 3103 541",
   "1506 4938 716213 239"]

def blankPoints : CodePoints := .ofRows
  ["133 0 26 0 5599 0 2431 10 29 1 5 0 47 0 4000 0"]

/-- Digits, superscript and other digits without a place value included. -/
def digitPoints : CodePoints := .ofRows
  ["178 1 5 0 1446 9 134 9 198 9 412 9 118 9 118 9 118 9 118 9 118 9 118 9 118 9 118 9 118 9 96",
   "9 118 9 70 9 278 9 70 9 719 8 1134 9 38 9 300 9 128 10 165 9 6 9 182 9 86 9 134 9 6 9 1046 0",
   "3 5 6 9 982 8 11 8 11 8 89 0 10 8 1 0 630 8 1 8 1 8 32397 9 678 9 38 9 198 9 22 9 86 9 406 9",
   "21270 9 1414 9 1430 3 748 9 294 8 489 8 11 9 128 9 60 9 144 9 278 9 342 9 118 9 374 9 102 9",
   "102 9 422 9 102 9 758 9 246 9 70 9 19638 9 86 9 134 9 27764 49 2368 9 422 9 1622 9 1958 10",
   "2789 9"]

/-- Decimal digits, in runs of ten from zero to nine. -/
def decimalPoints : CodePoints := .ofRows
  ["1632 9 134 9 198 9 412 9 118 9 118 9 118 9 118 9 118 9 118 9 118 9 118 9 118 9 96 9 118 9 70",
   "9 278 9 70 9 1862 9 38 9 300 9 128 9 166 9 6 9 182 9 86 9 134 9 6 9 35270 9 678 9 38 9 198 9",
   "22 9 86 9 406 9 21270 9 1414 9 2182 9 812 9 128 9 60 9 144 9 278 9 342 9 118 9 374 9 102 9",
   "102 9 422 9 102 9 758 9 246 9 70 9 19638 9 86 9 134 9 27764 49 2368 9 422 9 1622 9 4758 9"]

def wordPoints : CodePoints := .ofRows
  ["170 0 7 1 1 0 3 1 1 2 1 22 1 30 1 457 4 11 14 4 7 0 1 0 129 4 1 1 2 3 1 0 6 0 1 2 1 0 1 19 1",
   "82 1 138 8 165 1 37 2 0 6 40 71 26 4 3 45 42 21 9 4 1 1 98 1 0 15 1 7 14 2 0 16 0 1 29 29 88",
   "11 0 14 42 9 1 4 0 5 21 4 0 9 0 3 0 23 24 7 10 5 23 1 5 17 41 58 53 3 0 18 0 7 9 4 9 1 15 4",
   "7 2 1 2 21 1 6 1 0 3 3 3 0 16 0 13 1 1 2 4 11 2 5 2 0 8 5 4 1 2 21 1 6 1 1 1 1 1 1 31 3 1 0",
   "7 9 2 2 16 8 1 2 1 21 1 6 1 1 1 4 3 0 18 0 15 1 4 9 9 0 11 7 2 1 2 21 1 6 1 1 1 4 3 0 30 1 1",
   "2 4 9 1 6 11 0 1 5 3 2 1 3 3 1 1 0 1 1 3 1 3 2 3 11 22 0 21 12 18 7 1 2 1 22 1 15 3 0 26 2 2",
   "0 2 1 4 9 8 6 1 0 4 7 1 2 1 22 1 9 1 4 3 0 31 1 1 1 4 9 1 1 17 8 1 2 1 40 2 0 16 0 5 2 1 9 4",
   "18 1 5 5 17 3 23 1 8 1 0 2 6 31 9 17 47 1 1 12 6 9 9 39 1 1 0 1 4 1 23 1 0 1 9 1 1 9 0 2 4 1",
   "0 9 9 2 3 32 0 31 19 12 7 1 35 27 4 115 42 20 10 6 5 4 3 3 0 3 1 7 2 4 12 12 0 1 9 6 37 1 0",
   "5 0 2 42 1 332 1 3 2 6 1 0 1 3 2 40 1 3 2 32 1 3 2 6 1 0 1 3 2 14 1 56 1 3 2 66 14 19 3 15",
   "16 85 2 5 3 619 2 16 1 25 5 74 3 10 7 17 13 18 14 17 14 12 1 2 15 51 35 0 4 0 3 9 6 9 22 9 6",
   "88 7 4 2 33 1 0 5 69 10 30 39 39 2 4 11 43 4 25 6 10 37 22 9 52 43 9 6 9 13 0 93 46 17 7 3 9",
   "41 29 13 55 26 35 28 9 3 48 2 8 7 42 2 2 41 3 1 5 1 1 3 0 5 191 64 277 2 5 2 37 2 5 2 7 1 0",
   "1 0 1 0 1 30 2 52 1 6 1 0 3 2 1 6 3 3 2 5 4 12 5 2 1 6 115 1 2 5 5 10 6 12 101 0 4 0 2 9 1 0",
   "3 4 6 0 1 0 1 0 1 3 1 10 2 3 5 4 4 0 1 57 726 59 78 21 630 29 1132 228 6 3 3 1 9 0 2 37 1 0",
   "5 0 2 55 7 0 16 22 9 6 1 6 1 6 1 6 1 6 1 6 1 6 1 6 80 0 469 2 25 8 7 4 2 4 4 85 6 2 1 89 1 3",
   "5 42 1 93 3 3 10 31 48 15 32 9 30 7 1 14 32 9 39 14 320 6591 64 22156 67 45 2 268 3 27 20 46",
   "16 30 2 79 39 8 2 102 2 63 5 1 1 0 1 4 24 15 1 2 1 3 1 22 13 5 10 51 14 49 28 9 24 5 3 0 1 1",
   "1 37 10 22 25 28 7 46 28 10 6 4 1 24 1 40 23 2 1 7 4 9 6 22 3 0 3 49 1 0 3 1 2 4 2 0 1 0 24",
   "2 2 10 7 2 12 5 2 5 2 5 9 6 1 6 1 42 1 13 6 114 13 9 6 11171 12 22 4 48 8452 365 2 105 38 6",
   "12 4 5 0 1 9 1 12 1 4 1 0 1 1 1 1 1 107 33 362 18 63 2 53 40 11 116 4 1 134 19 9 7 25 6 25",
   "11 88 3 5 2 5 2 5 2 2 35 11 1 25 1 18 1 1 1 14 2 13 34 122 12 44 12 56 17 1 244 28 3 48 16",
   "26 4 35 9 29 5 37 10 29 2 35 4 7 1 4 42 157 2 9 6 35 4 35 4 39 8 51 12 10 1 14 1 6 1 1 1 10",
   "1 14 1 6 1 1 67 310 9 21 10 7 24 5 1 41 1 8 69 5 2 0 1 43 1 1 3 0 2 22 2 30 2 37 8 8 48 18 1",
   "1 5 32 4 25 70 55 4 19 2 46 15 3 1 2 1 28 10 8 23 30 1 31 32 7 1 27 6 4 16 53 10 21 2 26 5",
   "25 23 6 80 72 55 50 13 50 7 41 12 9 294 30 1 41 6 1 78 39 8 21 11 3 27 17 46 27 20 22 12 52",
   "26 29 1 1 2 0 13 44 32 24 7 9 9 35 15 9 4 0 2 0 8 34 3 0 12 47 14 3 11 10 1 0 4 19 11 17 1",
   "24 84 6 1 0 1 3 1 14 1 9 7 46 17 9 11 7 2 1 2 21 1 6 1 1 1 4 3 0 18 0 12 4 158 52 18 3 5 9 5",
   "2 30 47 20 1 1 0 8 9 166 46 41 3 36 47 20 0 11 9 38 42 13 0 7 9 54 26 21 11 4 6 185 43 116",
   "82 12 7 2 0 2 7 1 1 1 23 15 0 1 0 14 9 70 7 2 38 16 0 1 0 28 0 10 39 7 0 21 0 11 45 19 0 18",
   "72 263 8 1 36 17 0 15 28 5 29 112 6 1 1 1 37 21 0 9 9 6 5 1 1 1 31 14 0 7 9 310 18 189 0 15",
   "20 43 921 102 110 17 195 2636 96 15 1070 4049 582 8633 568 7 30 1 9 6 78 1 9 6 29 18 47 16 3",
   "12 9 1 6 1 20 5 18 688 86 105 74 5 0 66 12 64 1 1 0 28 6135 8 1237 42 8 8935 3 1 6 1 1 1 290",
   "45 2 17 3 8 395 2308 106 5 12 3 8 7 9 5702 19 108 24 135 84 1 70 1 1 2 0 2 1 2 3 1 11 1 0 1",
   "6 1 64 1 3 2 7 1 6 1 27 1 3 1 4 1 0 3 6 1 339 2 24 1 24 1 30 1 24 1 30 1 24 1 30 1 24 1 30 1",
   "24 1 7 2 49 1792 30 481 44 10 6 2 9 4 0 321 29 18 43 4 9 1254 6 1 3 1 1 1 14 1 196 2 8 48 67",
   "7 0 4 9 791 58 1 2 1 3 76 44 1 14 194 3 1 26 1 1 1 0 2 0 1 9 1 3 1 0 1 0 6 0 4 0 1 0 1 0 1 2",
   "1 1 1 0 2 0 1 0 1 0 1 0 1 0 1 1 1 0 2 3 1 6 1 3 1 3 1 0 1 9 1 16 5 2 1 4 1 16 580 12 2787 9",
   "1030 42719 32 4152 7 221 2 5761 14 7472 3103 541 1506 4938"]

def nameStartPoints : CodePoints := .ofRows
  ["170 0 10 0 4 0 5 22 1 30 1 457 4 11 14 4 7 0 1 0 129 4 1 1 3 2 1 0 6 0 1 2 1 0 1 19 1 82 1",
   "138 8 165 1 37 2 0 6 40 71 26 4 3 45 42 35 1 1 98 1 0 15 1 7 1 10 2 2 0 16 0 1 29 29 88 11 0",
   "24 32 9 1 4 0 5 21 4 0 9 0 3 0 23 24 7 10 5 23 1 5 17 41 58 53 3 0 18 0 7 9 15 15 4 7 2 1 2",
   "21 1 6 1 0 3 3 3 0 16 0 13 1 1 2 14 1 10 0 8 5 4 1 2 21 1 6 1 1 1 1 1 1 31 3 1 0 19 2 16 8 1",
   "2 1 21 1 6 1 1 1 4 3 0 18 0 15 1 23 0 11 7 2 1 2 21 1 6 1 1 1 4 3 0 30 1 1 2 15 0 17 0 1 5 3",
   "2 1 3 3 1 1 0 1 1 3 1 3 2 3 11 22 0 52 7 1 2 1 22 1 15 3 0 26 2 2 0 2 1 30 0 4 7 1 2 1 22 1",
   "9 1 4 3 0 31 1 1 1 15 1 17 8 1 2 1 40 2 0 16 0 5 2 8 2 24 5 5 17 3 23 1 8 1 0 2 6 58 47 1 0",
   "13 6 58 1 1 0 1 4 1 23 1 0 1 9 1 0 10 0 2 4 1 0 21 3 32 0 63 7 1 35 27 4 115 42 20 0 16 5 4",
   "3 3 0 3 1 7 2 4 12 12 0 17 37 1 0 5 0 2 42 1 332 1 3 2 6 1 0 1 3 2 40 1 3 2 32 1 3 2 6 1 0 1",
   "3 2 14 1 56 1 3 2 66 37 15 16 85 2 5 3 619 2 16 1 25 5 74 3 10 7 17 13 18 14 17 14 12 1 2 15",
   "51 35 0 4 0 67 88 7 40 1 0 5 69 10 30 49 29 2 4 11 43 4 25 54 22 9 52 82 0 93 46 17 7 54 29",
   "13 1 10 43 26 35 41 2 10 35 2 8 7 42 2 2 41 3 1 5 1 1 3 0 5 191 64 277 2 5 2 37 2 5 2 7 1 0",
   "1 0 1 0 1 30 2 52 1 6 1 0 3 2 1 6 3 3 2 5 4 12 5 2 1 6 116 0 13 0 16 12 101 0 4 0 2 9 1 0 2",
   "5 6 0 1 0 1 0 1 15 2 3 5 4 4 0 17 40 2679 228 6 3 3 1 12 37 1 0 5 0 2 55 7 0 16 22 9 6 1 6 1",
   "6 1 6 1 6 1 6 1 6 1 6 550 2 25 8 7 4 2 4 4 85 6 2 1 89 1 3 5 42 1 93 17 31 48 15 512 6591 64",
   "22156 67 45 2 268 3 15 10 1 20 46 16 30 2 79 39 8 2 102 2 63 5 1 1 0 1 4 24 15 1 2 1 3 1 22",
   "29 51 14 49 62 5 3 0 1 1 11 27 10 22 25 28 7 46 28 0 16 4 1 9 10 4 1 40 23 2 1 7 20 22 3 0 3",
   "49 1 0 3 1 2 4 2 0 1 0 24 2 2 10 7 2 12 5 2 5 2 5 9 6 1 6 1 42 1 13 6 114 29 11171 12 22 4",
   "48 8452 365 2 105 38 6 12 4 5 0 1 9 1 12 1 4 1 0 1 1 1 1 1 107 33 138 6 217 18 63 2 53 40 9",
   "119 0 1 0 3 0 1 0 1 0 1 0 1 125 36 25 6 25 11 55 2 30 3 5 2 5 2 5 2 2 35 11 1 25 1 18 1 1 1",
   "14 2 13 34 122 69 52 267 28 3 48 47 31 13 29 5 37 10 29 2 35 4 7 1 4 42 157 18 35 4 35 4 39",
   "8 51 12 10 1 14 1 6 1 1 1 10 1 14 1 6 1 1 67 310 9 21 10 7 24 5 1 41 1 8 69 5 2 0 1 43 1 1 3",
   "0 2 22 10 22 9 30 65 18 1 1 10 21 10 25 70 55 6 1 64 0 15 3 1 2 1 28 42 28 3 28 35 7 1 27 27",
   "53 10 21 10 18 13 17 110 72 55 50 13 50 13 35 348 41 6 1 78 28 10 0 8 21 42 17 46 20 27 22",
   "12 52 57 1 2 0 13 44 32 24 26 35 29 0 2 0 8 34 3 0 12 47 14 3 21 0 1 0 35 17 1 24 84 6 1 0 1",
   "3 1 14 1 9 7 46 38 7 2 1 2 21 1 6 1 1 1 4 3 0 18 0 12 4 158 52 18 3 20 2 30 47 20 1 1 0 184",
   "46 41 3 36 47 20 0 59 42 13 0 71 26 37 6 185 43 116 63 31 7 2 0 2 7 1 1 1 23 15 0 1 0 94 7 2",
   "38 16 0 1 0 28 0 10 39 7 0 21 0 11 45 19 0 18 72 263 8 1 36 17 0 49 29 112 6 1 1 1 37 21 0",
   "25 5 1 1 1 31 14 0 327 18 189 0 79 921 102 110 17 195 2636 96 15 1070 4049 582 8633 568 7 30",
   "17 78 17 29 18 47 16 3 31 20 5 18 688 63 128 74 5 0 66 12 64 1 1 0 28 6135 8 1237 42 8 8935",
   "3 1 6 1 1 1 290 45 2 17 3 8 395 2308 106 5 12 3 8 7 9 5990 84 1 70 1 1 2 0 2 1 2 3 1 11 1 0",
   "1 6 1 64 1 3 2 7 1 6 1 27 1 3 1 4 1 0 3 6 1 339 2 24 1 24 1 30 1 24 1 30 1 24 1 30 1 24 1 30",
   "1 24 1 7 1844 30 481 44 10 6 16 0 321 29 18 43 1268 6 1 3 1 1 1 14 1 196 59 67 7 0 1204 3 1",
   "26 1 1 1 0 2 0 1 9 1 3 1 0 1 0 6 0 4 0 1 0 1 0 1 2 1 1 1 0 2 0 1 0 1 0 1 0 1 0 1 1 1 0 2 3 1",
   "6 1 3 1 3 1 0 1 9 1 16 5 2 1 4 1 16 4420 42719 32 4152 7 221 2 5761 14 7472 3103 541 1506",
   "4938"]

def namePartPoints : CodePoints := .ofRows
  ["170 0 10 0 1 0 2 0 5 22 1 30 1 457 4 11 14 4 7 0 1 0 17 116 1 1 3 2 1 0 6 4 1 0 1 19 1 82 1",
   "138 1 4 2 165 1 37 2 0 6 40 8 44 1 0 1 1 1 1 1 0 8 26 4 3 29 10 5 73 4 101 1 7 2 9 1 18 2 0",
   "16 58 2 100 14 53 4 0 2 0 2 45 18 27 4 10 5 23 1 5 9 73 1 128 2 9 1 18 1 7 2 1 2 21 1 6 1 0",
   "3 3 2 8 2 1 2 3 8 0 4 1 1 4 2 11 10 0 1 0 2 2 1 5 4 1 2 21 1 6 1 1 1 1 1 1 2 0 1 4 4 1 2 2 3",
   "0 7 3 1 0 7 15 11 2 1 8 1 2 1 21 1 6 1 1 1 4 2 9 1 2 1 2 2 0 15 3 2 9 9 6 1 2 1 7 2 1 2 21 1",
   "6 1 1 1 4 2 8 2 1 2 2 7 2 4 1 1 4 2 9 1 0 16 1 1 5 3 2 1 3 3 1 1 0 1 1 3 1 3 2 3 11 4 4 3 2",
   "1 3 2 0 6 0 14 9 16 12 1 2 1 22 1 15 2 8 1 2 1 3 7 1 1 2 2 0 2 3 2 9 16 3 1 7 1 2 1 22 1 9 1",
   "4 2 8 1 2 1 3 7 1 6 1 1 3 2 9 1 1 13 12 1 2 1 50 1 2 1 4 5 3 7 4 2 9 10 5 1 2 1 17 3 23 1 8",
   "1 0 2 6 3 0 4 5 1 0 1 7 6 9 2 1 13 57 5 14 1 9 39 1 1 0 1 4 1 23 1 0 1 22 2 4 1 0 1 5 2 9 2",
   "3 32 0 23 1 6 9 11 0 1 0 1 0 4 9 1 35 4 19 1 17 1 35 9 0 57 73 6 77 2 37 1 0 5 0 2 42 1 332",
   "1 3 2 6 1 0 1 3 2 40 1 3 2 32 1 3 2 6 1 0 1 3 2 14 1 56 1 3 2 66 2 2 9 8 14 15 16 85 2 5 3",
   "619 2 16 1 25 5 74 3 10 7 21 9 21 11 19 12 12 1 2 1 1 12 83 3 0 4 1 2 9 33 2 1 10 6 88 7 42",
   "5 69 10 30 1 11 4 11 10 39 2 4 11 43 4 25 6 10 37 27 4 62 1 28 2 10 6 9 13 0 8 13 1 15 49 76",
   "3 9 17 8 12 115 12 55 8 9 3 48 2 8 7 42 2 2 16 2 1 38 5 533 2 5 2 37 2 5 2 7 1 0 1 0 1 0 1",
   "30 2 52 1 6 1 0 3 2 1 6 3 3 2 5 4 12 5 2 1 6 66 1 19 0 28 0 13 0 16 12 51 12 4 0 3 11 17 0 4",
   "0 2 9 1 0 2 5 6 0 1 0 1 0 1 15 2 3 5 4 4 0 17 40 2679 228 6 8 12 37 1 0 5 0 2 55 7 0 15 23 9",
   "6 1 6 1 6 1 6 1 6 1 6 1 6 1 6 1 31 517 2 25 14 1 4 2 4 4 85 2 1 2 2 1 89 1 3 5 42 1 93 17 31",
   "48 15 512 6591 64 22156 67 45 2 268 3 27 20 47 4 9 1 114 37 8 2 102 2 63 5 1 1 0 1 4 24 53 4",
   "0 19 51 12 69 10 9 6 23 3 0 1 48 2 35 12 28 3 64 14 10 6 30 1 54 9 13 2 9 6 22 3 72 24 2 2",
   "15 2 4 10 5 2 5 2 5 9 6 1 6 1 42 1 13 6 122 1 1 2 9 6 11171 12 22 4 48 8452 365 2 105 38 6",
   "12 4 5 11 1 12 1 4 1 0 1 1 1 1 1 107 33 138 6 217 18 63 2 53 40 9 6 15 16 15 3 1 24 2 33 0 1",
   "0 3 0 1 0 1 0 1 0 1 125 19 9 7 25 4 0 1 25 11 88 3 5 2 5 2 5 2 2 35 11 1 25 1 18 1 1 1 14 2",
   "13 34 122 69 52 136 0 130 28 3 48 15 0 31 31 13 29 5 42 5 29 2 35 4 7 1 4 42 157 2 9 6 35 4",
   "35 4 39 8 51 12 10 1 14 1 6 1 1 1 10 1 14 1 6 1 1 67 310 9 21 10 7 24 5 1 41 1 8 69 5 2 0 1",
   "43 1 1 3 0 2 22 10 22 9 30 65 18 1 1 10 21 10 25 70 55 6 1 64 3 1 1 5 7 1 2 1 28 2 2 4 0 32",
   "28 3 28 35 7 1 29 25 53 10 21 10 18 13 17 110 72 55 50 13 50 13 39 8 9 326 41 1 1 3 1 78 28",
   "10 0 8 32 31 21 42 20 27 22 9 70 31 15 9 59 7 0 13 24 7 9 6 52 1 9 4 3 8 35 2 0 9 68 4 3 1",
   "12 1 0 35 17 1 36 6 0 65 6 1 0 1 3 1 14 1 9 7 58 5 9 6 3 1 7 2 1 2 21 1 6 1 1 1 4 1 9 2 1 2",
   "2 2 0 6 0 5 6 2 6 3 4 139 74 5 9 4 3 30 69 1 0 8 9 166 53 2 8 23 5 34 64 3 0 11 9 38 56 7 9",
   "54 26 2 14 4 9 6 6 185 58 101 73 21 7 2 0 2 7 1 1 1 29 1 1 2 8 12 9 70 7 2 45 2 7 1 1 27 62",
   "8 0 8 73 3 0 18 72 263 8 1 44 1 8 15 9 24 29 2 21 1 13 73 6 1 1 1 43 3 0 1 1 1 8 8 9 6 5 1 1",
   "1 36 1 1 1 5 7 9 310 22 185 0 79 921 102 110 17 195 2636 96 15 1070 4049 582 8633 568 7 30 1",
   "9 6 78 1 9 6 29 2 4 11 54 9 3 12 9 9 20 5 18 688 63 128 74 4 56 7 16 64 1 1 1 11 1 14 6135 8",
   "1237 42 8 8935 3 1 6 1 1 1 290 45 2 17 3 8 395 2308 106 5 12 3 8 7 9 3 1 4705 45 2 22 542 4",
   "3 5 8 7 2 6 30 3 148 2 443 84 1 70 1 1 2 0 2 1 2 3 1 11 1 0 1 6 1 64 1 3 2 7 1 6 1 27 1 3 1",
   "4 1 0 3 6 1 339 2 24 1 24 1 30 1 24 1 30 1 24 1 30 1 24 1 30 1 24 1 7 2 49 512 54 4 49 8 0",
   "14 0 22 4 1 14 1104 30 225 6 1 16 2 6 1 1 1 4 213 44 3 13 2 9 4 0 321 30 17 57 1254 6 1 3 1",
   "1 1 14 1 196 11 6 41 75 4 9 1190 3 1 26 1 1 1 0 2 0 1 9 1 3 1 0 1 0 6 0 4 0 1 0 1 0 1 2 1 1",
   "1 0 2 0 1 0 1 0 1 0 1 0 1 1 1 0 2 3 1 6 1 3 1 3 1 0 1 9 1 16 5 2 1 4 1 16 3380 9 1030 42719",
   "32 4152 7 221 2 5761 14 7472 3103 541 1506 4938 716213 239"]

def casedPoints : CodePoints := .ofRows
  ["170 0 10 0 4 0 5 22 1 30 1 194 1 3 4 207 1 35 7 1 30 4 96 0 42 3 2 1 2 3 1 0 6 0 1 2 1 0 1",
   "19 1 82 1 138 8 165 1 37 9 40 2839 37 1 0 5 0 2 42 2 2 672 85 2 5 2178 8 7 42 2 2 64 191 64",
   "277 2 5 2 37 2 5 2 7 1 0 1 0 1 0 1 30 2 52 1 6 1 0 3 2 1 6 3 3 2 5 4 12 5 2 1 6 116 0 13 0",
   "16 12 101 0 4 0 2 9 1 0 3 4 6 0 1 0 1 0 1 3 1 5 4 0 2 3 5 4 4 0 17 31 3 1 817 51 1814 228 6",
   "3 3 1 12 37 1 0 5 0 30994 45 18 29 132 101 3 3 1 58 5 1 1 0 1 4 27 1 1 2 821 42 1 12 7 79",
   "20288 6 12 4 1033 25 6 25 1189 79 96 35 4 35 116 10 1 14 1 6 1 1 1 10 1 14 1 6 1 1 451 0 2 2",
   "1 41 1 8 1221 50 13 50 2989 63 21856 63 25984 84 1 70 1 1 2 0 2 1 2 3 1 11 1 0 1 6 1 64 1 3",
   "2 7 1 6 1 27 1 3 1 4 1 0 3 6 1 339 2 24 1 24 1 30 1 24 1 30 1 24 1 30 1 24 1 30 1 24 1 7",
   "1844 9 1 19 2529 67 2028 25 6 25 6 25"]

/-- Characters that casing rules look through. -/
def caseIgnorablePoints : CodePoints := .ofRows
  ["168 0 4 0 1 0 4 0 2 1 503 191 4 1 4 0 9 1 1 0 251 6 207 0 5 0 49 44 1 0 1 1 1 1 1 0 44 0 11",
   "5 10 10 1 0 35 0 10 20 16 0 101 7 1 9 1 3 33 0 1 0 30 26 91 10 58 10 4 0 2 0 24 23 43 2 44 0",
   "7 1 6 7 41 57 55 0 1 0 4 7 4 0 3 6 10 1 13 0 15 0 58 0 4 3 8 0 20 1 26 0 2 1 57 0 4 1 4 1 2",
   "2 3 0 30 1 3 0 11 1 57 0 4 4 1 1 4 0 20 1 22 5 1 0 58 0 2 0 1 3 8 0 7 1 11 1 30 0 61 0 12 0",
   "50 0 3 0 55 0 1 2 5 2 1 3 7 1 11 1 29 0 58 0 2 0 6 0 5 1 20 1 28 1 57 1 4 3 8 0 20 1 29 0 72",
   "0 7 2 1 0 90 0 2 6 11 8 98 0 2 8 9 0 1 5 74 1 27 0 1 0 1 0 55 13 1 4 1 1 5 10 1 35 9 0 102 3",
   "1 5 1 1 2 1 25 1 4 2 16 3 13 0 2 1 6 0 15 0 94 0 608 2 946 2 29 1 30 1 30 1 64 1 1 6 8 0 2",
   "10 3 0 5 0 45 4 51 0 65 1 34 0 118 2 4 1 9 0 6 2 219 1 2 0 58 0 1 6 1 0 1 0 2 7 6 9 2 0 39 0",
   "8 30 49 3 48 0 1 4 1 0 5 0 40 8 12 1 32 3 2 1 1 2 56 0 1 1 3 0 1 2 58 7 2 1 64 5 82 2 1 12 1",
   "6 4 0 6 0 3 1 50 62 13 0 34 100 445 0 1 2 11 2 13 2 13 2 13 1 12 4 8 1 10 0 2 0 2 4 49 4 1 9",
   "1 0 13 0 16 12 51 32 2955 1 113 2 125 0 15 0 96 31 47 0 469 0 36 3 3 4 5 0 93 5 93 2 28438 0",
   "1250 5 270 0 98 3 1 9 1 0 28 3 80 1 14 33 78 0 23 2 103 2 3 1 8 0 3 0 4 0 25 1 5 0 151 1 26",
   "17 13 0 38 7 25 10 46 2 48 0 2 3 2 1 17 0 21 1 66 5 2 1 2 1 12 0 8 0 35 0 11 0 51 0 1 2 2 1",
   "5 1 1 0 27 0 14 1 5 1 1 0 100 4 9 2 121 0 2 0 4 0 20272 0 147 16 573 15 3 0 12 15 34 0 2 0",
   "169 0 7 0 6 0 11 0 35 0 1 0 47 0 45 1 67 0 21 2 513 0 226 0 149 4 1029 5 1 41 1 8 582 2 1 1",
   "5 3 40 2 4 0 165 1 573 3 387 1 153 10 49 3 123 0 54 14 41 0 2 1 10 2 49 3 2 1 2 0 4 0 10 0",
   "50 2 36 4 1 7 62 0 12 1 52 8 10 3 2 0 95 2 2 0 1 1 6 0 160 0 3 7 21 1 57 1 3 0 37 6 3 4 195",
   "7 2 2 1 0 23 0 84 5 1 0 4 1 1 1 238 3 6 1 1 1 27 1 85 7 2 0 1 1 106 0 1 0 2 5 1 0 101 2 2 3",
   "1 4 259 8 1 1 256 1 1 0 4 0 144 3 2 1 4 0 32 9 40 5 2 3 8 0 9 5 2 2 46 12 1 1 406 6 1 5 1 0",
   "82 21 2 6 1 1 1 1 122 5 3 0 1 1 1 6 1 0 72 1 3 0 1 0 347 1 5435 8 14007 4 59 6 9 3 1035 0 63",
   "16 64 1 1 1 16395 3 1 6 1 1 3230 1 1 3 4700 45 2 22 544 2 9 15 2 6 30 3 148 2 1979 54 4 49 8",
   "0 14 0 22 4 1 14 1360 6 1 16 2 6 1 1 1 4 261 13 368 0 61 3 1504 6 109 7 2735 4 789505 0 30",
   "95 128 239"]

def isPrintable (c : Char) : Bool :=
  if c.toNat < 128 then 32 ≤ c.toNat && c.toNat < 127 else printablePoints.contains c

/-- The ASCII blanks are the usual six and the four separators before the space. -/
def isBlank (c : Char) : Bool :=
  if c.toNat < 128 then (9 ≤ c.toNat && c.toNat ≤ 13) || (28 ≤ c.toNat && c.toNat ≤ 32)
  else blankPoints.contains c

def isDigit (c : Char) : Bool :=
  if c.toNat < 128 then c.isDigit else digitPoints.contains c

def isWordChar (c : Char) : Bool :=
  if c.toNat < 128 then c.isAlphanum || c = '_' else wordPoints.contains c

def isNameStart (c : Char) : Bool :=
  if c.toNat < 128 then c.isAlpha || c = '_' else nameStartPoints.contains c

def isNamePart (c : Char) : Bool :=
  if c.toNat < 128 then c.isAlphanum || c = '_' else namePartPoints.contains c

def isCased (c : Char) : Bool :=
  if c.toNat < 128 then c.isAlpha else casedPoints.contains c

def isCaseIgnorable (c : Char) : Bool :=
  if c.toNat < 128 then
    c.toNat = 39 || c = '.' || c = ':' || c = '^' || c.toNat = 96
  else caseIgnorablePoints.contains c

/-- The value of a decimal digit of any script. -/
def decimalDigit? (c : Char) : Option Nat :=
  if c.isDigit then some (c.toNat - 48)
  else if c.toNat < 128 then none
  else decimalPoints.runs.findSome? fun run =>
    if run.1 ≤ c.toNat && c.toNat ≤ run.2 then some ((c.toNat - run.1) % 10) else none

/-- An identifier: a starting character, then continuing ones. -/
def isIdentifier (s : String) : Bool :=
  match s.toList with
  | [] => false
  | c :: rest => isNameStart c && rest.all isNamePart

end EffectTree.Text

import Retention.Text.Mark

/-!
# Direction of writing

Letters run to the right or to the left, numerals have directions of their own, marks take
the direction of what they stand on, and other characters have none. The directions are fixed
at version 13 of Unicode, and those of later characters are not known. In a label that runs to
the left anywhere the directions have to agree, so that it can be told apart from its
neighbours.
-/

namespace Retention

/-- The direction of a character. -/
inductive Direction where
  | toRight
  | toLeft
  | numeral
  | arabicNumeral
  | mark
  | neutral
  | unknown
  deriving DecidableEq

namespace Direction

/-- Letters and signs that run to the left. -/
def leftward : List CodeRange := CodeRange.table
  ["5be 5c0 5c3 5c6 5d0-5ea 5ef-5f4 608 60b 60d 61b 61e-64a 66d-66f 671-674 679-6d5 6e5-6e6",
   "6ee-6ef 6fa-70d 710 712-72f 74d-7a5 7b1 7c0-7ea 7f4-7f5 7fa 7fe-815 81a 824 828 830-83e",
   "840-858 85e 860-86a 8a0-8b4 8b6-8c7 fbb2-fbc1 fe73 10800-10805 10808 1080a-10835 10837-10838",
   "1083c 1083f-10855 10857-1089e 108a7-108af 108e0-108f2 108f4-108f5 108fb-1091b 10920-10939",
   "1093f 10980-109b7 109bc-109cf 109d2-10a00 10a10-10a13 10a15-10a17 10a19-10a35 10a40-10a48",
   "10a50-10a58 10a60-10a9f 10ac0-10ae4 10aeb-10af6 10b00-10b35 10b40-10b55 10b58-10b72",
   "10b78-10b91 10b99-10b9c 10ba9-10baf 10c00-10c48 10cc0-10cf2 10cfa-10d23 10e80-10ea9 10ead",
   "10eb0-10eb1 10f00-10f27 10f30-10f45 10f51-10f59 10fb0-10fcb 10fe0-10ff6 1e800-1e8c4",
   "1e8c7-1e8cf 1e922-1e943 1e94b 1e950-1e959 1e95e-1e95f 1ec71-1ecb4 1ed01-1ed3d"]

/-- Numerals that are written with letters that run to the left. -/
def arabicNumerals : List CodeRange := CodeRange.table
  ["660-669 66b-66c 10d30-10d39 10e60-10e7e"]

/-- The other numerals. -/
def numerals : List CodeRange := CodeRange.table
  ["30-39 6f0-6f9 102e1-102fb"]

/-- Characters without a direction. -/
def directionless : List CodeRange := CodeRange.table
  ["21-2f 3a-40 5b-60 7b-7e a1-a7 a9 ab-ac ae b0-b1 b6-b7 bb bf d7 f7 2b9-2ba 2c2-2cf 2d2-2d7",
   "2de-2df 2e5-2ed 2ef-2ff 375 3f6 58a 58d-58f 606-607 609-60a 60c 60e-60f 66a 6de 6e9 7f6-7f9",
   "9f2-9f3 9fb af1 bf3-bfa c78-c7e e3f f3a-f3d 1390-1399 1400 169b-169c 17db 17f0-17f9 1800-180a",
   "1940 1944-1945 19de-19ff 200c-200d 2010 2012-2016 2018-2023 2027 2030-2032 2035 2038-203b 203d",
   "203f-2046 204a-2056 2058-205e 20a0-20a7 20a9-20bf 2104 2108 2114 2117-2118 211e-211f 2123/2129",
   "212e 213a 2141-2144 214a-214d 218a-218b 2190-222b 222e 2231-2328 232b-2335 237b-2394 2396-2426",
   "2440-244a 24eb-26ab 26ad-27ff 2900-2a0b 2a0d-2a73 2a77-2adb 2add-2b73 2b76-2b95 2b97-2bff",
   "2ce5-2cea 2cf9-2cff 2e00-2e52 2e80-2e99 2e9b-2e9e 2ea0-2ef2 3001 3003-3004 3008-3020 3030 3037",
   "303d-303f 30a0 30fb 31c0-31e3 4dc0-4dff a490-a4c6 a60d-a60f a673 a67e-a67f a700-a721 a788",
   "a828-a82b a838-a839 a874-a877 ab6a-ab6b fd3e-fd3f fdfd fe45-fe46 10101 10140-1018c 10190-1019c",
   "101a0 1091f 10b39-10b3f 11052-11065 11660-1166c 11fd5-11ff1 16fe2 1d200-1d241 1d245",
   "1d300-1d356 1e2ff 1eef0-1eef1 1f000-1f02b 1f030-1f093 1f0a0-1f0ae 1f0b1-1f0bf 1f0c1-1f0cf",
   "1f0d1-1f0f5 1f10b-1f10f 1f12f 1f16d-1f16f 1f1ad 1f260-1f265 1f300-1f6d7 1f6e0-1f6ec",
   "1f6f0-1f6fc 1f700-1f773 1f780-1f7d8 1f7e0-1f7eb 1f800-1f80b 1f810-1f847 1f850-1f859",
   "1f860-1f887 1f890-1f8ad 1f8b0-1f8b1 1f900-1f978 1f97a-1f9cb 1f9cd-1fa53 1fa60-1fa6d",
   "1fa70-1fa74 1fa78-1fa7a 1fa80-1fa86 1fa90-1faa8 1fab0-1fab6 1fac0-1fac2 1fad0-1fad6",
   "1fb00-1fb92 1fb94-1fbca"]

/-- Characters of later versions, whose direction is not known. -/
def later : List CodeRange := CodeRange.table
  ["61d 870-88e 898-89f 8b5 8c8-8d2 c3c c5d cdd cf3 ece 170d 1715 171f 1ac1-1ace 1b4c 1b7d-1b7e",
   "1dfa 20c0 2c5f 2e53-2e5d 9ffd-9fff a7c1 a7d1/a7d9 fbc2 fd40-fd4f fdcf fdfe-fdff 10597-105a1",
   "105a3-105b1 105b3-105b9 105bb-105bc 10780 10efd-10eff 10f70-10f89 11070-11075 110c2",
   "1123f-11241 116b9 11740-11746 11ab0-11abf 11b00-11b09 11f00-11f10 11f12-11f3a 11f3e-11f59",
   "12f90-12ff2 1342f 13440-13455 16a70-16abe 16ac0-16ac9 1aff0-1aff3 1aff5-1affb 1affd-1affe",
   "1b11f-1b122 1b132 1b155 1cf00-1cf2d 1cf30-1cf46 1cf50-1cfc3 1d1e9-1d1ea 1d2c0-1d2d3",
   "1df00-1df1e 1df25-1df2a 1e08f 1e290-1e2ae 1e4d0-1e4f9 1e7e0-1e7e6 1e7e8-1e7eb 1e7ed-1e7ee",
   "1e7f0-1e7fe 1f6dc-1f6df 1f774-1f776 1f77b-1f77f 1f7d9 1f7f0 1f979 1f9cc 1fa75-1fa77",
   "1fa7b-1fa7c 1fa87-1fa88 1faa9-1faaf 1fab7-1fabd 1fabf 1fac3-1fac5 1face-1facf 1fad7-1fadb",
   "1fae0-1fae8 1faf0-1faf8 2a6de-2a6df 2b735-2b739 2ebf0-2ee5d 31350-323af"]

/-- The direction of a code point; without a mention it runs to the right. -/
def ofPoint (point : Nat) : Direction :=
  if CodeRange.holds leftward point then toLeft
  else if CodeRange.holds arabicNumerals point then arabicNumeral
  else if CodeRange.holds numerals point then numeral
  else if CodeRange.holds directionless point then neutral
  else if CodeRange.holds Mark.carried point then mark
  else if CodeRange.holds later point then unknown
  else toRight

/-- Whether a direction is that of writing to the left. -/
def isLeftward (direction : Direction) : Bool :=
  direction = toLeft || direction = arabicNumeral

/-- Whether the directions in a label agree. Where something runs to the left, all directions
are known. A label that begins to the right may turn to the left in its last character only,
marks aside. In another one nothing runs to the right, numerals are of one kind, and the last
character, marks aside, is a letter or a numeral. -/
def agree (label : List Nat) : Bool :=
  let directions := label.map ofPoint
  let fromLast := directions.reverse.dropWhile (· = mark)
  if !directions.any isLeftward then true
  else if directions.contains unknown then false
  else if directions.head? = some toRight then (fromLast.drop 1).all fun d => !d.isLeftward
  else
    !directions.contains toRight &&
      !(directions.contains numeral && directions.contains arabicNumeral) &&
      fromLast.head?.any (· ≠ neutral)

/-- A label without a direction to the left agrees with itself. -/
theorem agree_of_not_leftward {label : List Nat}
    (h : ∀ point ∈ label, (ofPoint point).isLeftward = false) : agree label = true := by
  have hnone : (label.map ofPoint).any isLeftward = false := by
    simpa [List.any_eq_false] using h
  simp only [agree, hnone, Bool.not_false, if_true]

end Direction

end Retention

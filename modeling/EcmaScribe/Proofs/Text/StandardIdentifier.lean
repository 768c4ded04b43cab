/-
# EcmaScribe.Proofs.Text.StandardIdentifier -- the identifiers of the language

The language lets the Unicode properties ID_Start and ID_Continue decide which characters beyond
ASCII stand in a name.  Property keys are judged by other classes, by the property Alphabetic and
the numeric categories, and the two judgements differ on both sides.

The tables here, from version 17 like those of the classes, hold the differences: alphabetic
marks, which stand in identifiers but not in front; characters that stand in none although they
are alphabetic or numerals; and what stands in identifiers without being either.
`isName_standard_iff` tells which of the texts that pass for property names are names.
-/
import EcmaScribe.Proofs.Text.Identifier

namespace EcmaScribe

set_option autoImplicit false

open Text

namespace Text

/-- The alphabetic marks that stand in identifiers but not in front. -/
def markBounds : List Nat :=
  [837, 838, 867, 880, 1456, 1470, 1471, 1472, 1473, 1475, 1476, 1478, 1479, 1480, 1552, 1563,
    1611, 1624, 1625, 1632, 1648, 1649, 1750, 1757, 1761, 1765, 1767, 1769, 1773, 1774, 1809,
    1810, 1840, 1856, 1958, 1969, 2070, 2072, 2075, 2084, 2085, 2088, 2089, 2093, 2199, 2200,
    2260, 2272, 2275, 2282, 2288, 2308, 2362, 2364, 2366, 2381, 2382, 2384, 2389, 2392, 2402,
    2404, 2433, 2436, 2494, 2501, 2503, 2505, 2507, 2509, 2519, 2520, 2530, 2532, 2561, 2564,
    2622, 2627, 2631, 2633, 2635, 2637, 2641, 2642, 2672, 2674, 2677, 2678, 2689, 2692, 2750,
    2758, 2759, 2762, 2763, 2765, 2786, 2788, 2810, 2813, 2817, 2820, 2878, 2885, 2887, 2889,
    2891, 2893, 2902, 2904, 2914, 2916, 2946, 2947, 3006, 3011, 3014, 3017, 3018, 3021, 3031,
    3032, 3072, 3077, 3134, 3141, 3142, 3145, 3146, 3149, 3157, 3159, 3170, 3172, 3201, 3204,
    3262, 3269, 3270, 3273, 3274, 3277, 3285, 3287, 3298, 3300, 3315, 3316, 3328, 3332, 3390,
    3397, 3398, 3401, 3402, 3405, 3415, 3416, 3426, 3428, 3457, 3460, 3535, 3541, 3542, 3543,
    3544, 3552, 3570, 3572, 3633, 3634, 3636, 3643, 3661, 3662, 3761, 3762, 3764, 3770, 3771,
    3773, 3789, 3790, 3953, 3972, 3981, 3992, 3993, 4029, 4139, 4151, 4152, 4153, 4155, 4159,
    4182, 4186, 4190, 4193, 4194, 4197, 4199, 4206, 4209, 4213, 4226, 4238, 4239, 4240, 4250,
    4254, 5906, 5908, 5938, 5940, 5970, 5972, 6002, 6004, 6070, 6089, 6313, 6314, 6432, 6444,
    6448, 6457, 6679, 6684, 6741, 6751, 6753, 6773, 6847, 6849, 6860, 6863, 6912, 6917, 6965,
    6980, 7040, 7043, 7073, 7082, 7084, 7086, 7143, 7154, 7204, 7223, 7635, 7669, 11744, 11776,
    42612, 42620, 42654, 42656, 43010, 43011, 43019, 43020, 43043, 43048, 43136, 43138, 43188,
    43204, 43205, 43206, 43263, 43264, 43302, 43307, 43335, 43347, 43392, 43396, 43444, 43456,
    43493, 43494, 43561, 43575, 43587, 43588, 43596, 43598, 43643, 43646, 43696, 43697, 43698,
    43701, 43703, 43705, 43710, 43711, 43755, 43760, 43765, 43766, 44003, 44011, 64286, 64287,
    66422, 66427, 68097, 68100, 68101, 68103, 68108, 68112, 68900, 68904, 68969, 68970, 69291,
    69293, 69370, 69373, 69632, 69635, 69688, 69702, 69747, 69749, 69760, 69763, 69808, 69817,
    69826, 69827, 69888, 69891, 69927, 69939, 69957, 69959, 70016, 70019, 70067, 70080, 70094,
    70096, 70188, 70197, 70199, 70200, 70206, 70207, 70209, 70210, 70367, 70377, 70400, 70404,
    70462, 70469, 70471, 70473, 70475, 70477, 70487, 70488, 70498, 70500, 70584, 70593, 70594,
    70595, 70597, 70598, 70599, 70603, 70604, 70606, 70709, 70722, 70723, 70726, 70832, 70850,
    71087, 71094, 71096, 71103, 71132, 71134, 71216, 71231, 71232, 71233, 71339, 71350, 71453,
    71467, 71724, 71737, 71984, 71990, 71991, 71993, 71995, 71997, 72000, 72001, 72002, 72003,
    72145, 72152, 72154, 72160, 72164, 72165, 72193, 72203, 72245, 72250, 72251, 72255, 72273,
    72284, 72330, 72344, 72544, 72552, 72751, 72759, 72760, 72767, 72850, 72872, 72873, 72887,
    73009, 73015, 73018, 73019, 73020, 73022, 73023, 73026, 73027, 73028, 73031, 73032, 73098,
    73103, 73104, 73106, 73107, 73111, 73459, 73463, 73472, 73474, 73475, 73476, 73524, 73531,
    73534, 73537, 90398, 90415, 94031, 94032, 94033, 94088, 94095, 94099, 94192, 94194, 113822,
    113823, 122880, 122887, 122888, 122905, 122907, 122914, 122915, 122917, 122918, 122923,
    123023, 123024, 124643, 124644, 124646, 124647, 124654, 124656, 124661, 124662, 125255,
    125256]

/-- The other alphabetic and numeric characters that stand in no identifier: superscripts,
fractions and numerals that are no digits, letters in circles and squares, and one modifier. -/
def strayBounds : List Nat :=
  [178, 180, 185, 186, 188, 191, 2548, 2554, 2930, 2936, 3056, 3059, 3192, 3199, 3416, 3423, 3440,
    3449, 3882, 3892, 4978, 4989, 6128, 6138, 8304, 8305, 8308, 8314, 8320, 8330, 8528, 8544,
    8585, 8586, 9312, 9372, 9398, 9472, 10102, 10132, 11517, 11518, 11823, 11824, 12690, 12694,
    12832, 12842, 12872, 12880, 12881, 12896, 12928, 12938, 12977, 12992, 43056, 43062, 65799,
    65844, 65909, 65913, 65930, 65932, 66273, 66300, 66336, 66340, 67672, 67680, 67705, 67712,
    67751, 67760, 67835, 67840, 67862, 67868, 68028, 68030, 68032, 68048, 68050, 68096, 68160,
    68169, 68221, 68223, 68253, 68256, 68331, 68336, 68440, 68448, 68472, 68480, 68521, 68528,
    68858, 68864, 69216, 69247, 69405, 69415, 69457, 69461, 69573, 69580, 69714, 69734, 70113,
    70133, 71482, 71484, 71914, 71923, 72794, 72813, 73664, 73685, 93019, 93026, 93824, 93847,
    119488, 119508, 119520, 119540, 119648, 119673, 125127, 125136, 126065, 126124, 126125,
    126128, 126129, 126133, 126209, 126254, 126255, 126270, 127232, 127245, 127280, 127306,
    127312, 127338, 127344, 127370]

/-- What starts identifiers without being alphabetic. -/
def startOnlyBounds : List Nat :=
  [8472, 8473, 8494, 8495, 12443, 12445]

/-- What stands in identifiers without being alphabetic or a numeral. -/
def partOnlyBounds : List Nat :=
  [95, 96, 183, 184, 768, 837, 838, 867, 903, 904, 1155, 1160, 1425, 1456, 1624, 1625, 1759, 1761,
    1770, 1773, 1856, 1867, 2027, 2036, 2045, 2046, 2072, 2074, 2093, 2094, 2137, 2140, 2200,
    2208, 2250, 2260, 2272, 2274, 2282, 2288, 2364, 2365, 2381, 2382, 2385, 2389, 2492, 2493,
    2509, 2510, 2558, 2559, 2620, 2621, 2637, 2638, 2748, 2749, 2765, 2766, 2813, 2816, 2876,
    2877, 2893, 2894, 2901, 2902, 3021, 3022, 3132, 3133, 3149, 3150, 3260, 3261, 3277, 3278,
    3387, 3389, 3405, 3406, 3530, 3531, 3655, 3661, 3662, 3663, 3770, 3771, 3784, 3789, 3790,
    3791, 3864, 3866, 3893, 3894, 3895, 3896, 3897, 3898, 3902, 3904, 3972, 3973, 3974, 3976,
    4038, 4039, 4151, 4152, 4153, 4155, 4957, 4960, 5908, 5910, 5940, 5941, 6068, 6070, 6089,
    6100, 6109, 6110, 6155, 6158, 6159, 6160, 6457, 6460, 6752, 6753, 6773, 6781, 6783, 6784,
    6832, 6846, 6849, 6860, 6863, 6878, 6880, 6892, 6964, 6965, 6980, 6981, 7019, 7028, 7082,
    7084, 7142, 7143, 7154, 7156, 7223, 7224, 7376, 7379, 7380, 7401, 7405, 7406, 7412, 7413,
    7415, 7418, 7616, 7635, 7669, 7680, 8204, 8206, 8255, 8257, 8276, 8277, 8400, 8413, 8417,
    8418, 8421, 8433, 8472, 8473, 8494, 8495, 11503, 11506, 11647, 11648, 12330, 12336, 12441,
    12445, 12539, 12540, 42607, 42608, 42620, 42622, 42736, 42738, 43014, 43015, 43052, 43053,
    43204, 43205, 43232, 43250, 43307, 43310, 43347, 43348, 43443, 43444, 43456, 43457, 43711,
    43712, 43713, 43714, 43766, 43767, 44012, 44014, 65024, 65040, 65056, 65072, 65075, 65077,
    65101, 65104, 65343, 65344, 65381, 65382, 66045, 66046, 66272, 66273, 68152, 68155, 68159,
    68160, 68325, 68327, 68970, 68974, 69373, 69376, 69446, 69457, 69506, 69510, 69702, 69703,
    69744, 69745, 69759, 69760, 69817, 69819, 69939, 69941, 70003, 70004, 70080, 70081, 70089,
    70093, 70197, 70199, 70377, 70379, 70459, 70461, 70477, 70478, 70502, 70509, 70512, 70517,
    70606, 70609, 70610, 70611, 70625, 70627, 70722, 70723, 70726, 70727, 70750, 70751, 70850,
    70852, 71103, 71105, 71231, 71232, 71350, 71352, 71467, 71468, 71737, 71739, 71997, 71999,
    72003, 72004, 72160, 72161, 72243, 72245, 72263, 72264, 72344, 72346, 72767, 72768, 73026,
    73027, 73028, 73030, 73111, 73112, 73537, 73539, 73562, 73563, 78912, 78913, 78919, 78934,
    90415, 90416, 92912, 92917, 92976, 92983, 94180, 94181, 113821, 113822, 118528, 118574,
    118576, 118599, 119141, 119146, 119149, 119155, 119163, 119171, 119173, 119180, 119210,
    119214, 119362, 119365, 121344, 121399, 121403, 121453, 121461, 121462, 121476, 121477,
    121499, 121504, 121505, 121520, 123184, 123191, 123566, 123567, 123628, 123632, 124140,
    124144, 124398, 124400, 125136, 125143, 125252, 125255, 125256, 125259, 917760, 918000]

def isAlphabeticMark (c : Char) : Bool := withinBounds markBounds c.toNat

def isStray (c : Char) : Bool := withinBounds strayBounds c.toNat

/-- The property ID_Start. -/
def isIdStart (c : Char) : Bool :=
  if isAlphabetic c then !(isAlphabeticMark c || isStray c)
  else withinBounds startOnlyBounds c.toNat

/-- The property ID_Continue. -/
def isIdContinue (c : Char) : Bool :=
  if isAlphabetic c || isNumeric c then !isStray c else withinBounds partOnlyBounds c.toNat

/-- What only starts identifiers is also among what only stands in them. -/
theorem isIdContinue_of_startOnly {c : Char} (h : withinBounds startOnlyBounds c.toNat = true) :
    isIdContinue c = true := by
  have four : c.toNat = 8472 ∨ c.toNat = 8494 ∨ c.toNat = 12443 ∨ c.toNat = 12444 := by
    simp only [startOnlyBounds, withinBounds] at h
    repeat' split at h
    all_goals first | omega | cases h
  unfold isIdContinue isAlphabetic isNumeric isStray
  rcases four with code | code | code | code <;> rw [code] <;> decide +kernel

theorem isIdContinue_of_isIdStart {c : Char} (h : isIdStart c = true) : isIdContinue c = true := by
  unfold isIdStart at h
  split at h
  · rename_i letter
    simp only [Bool.not_or, Bool.and_eq_true] at h
    simp only [isIdContinue, letter, Bool.true_or, if_true]
    exact h.2
  · exact isIdContinue_of_startOnly h

end Text

namespace IdentifierClass

/-- The characters of the identifiers of the language. -/
def standard : IdentifierClass where
  starts c := c = '$' || c = '_' || isIdStart c
  continues c := c = '$' || c = '_' || c = '\u200c' || c = '\u200d' || isIdContinue c
  starts_ascii := fun _ => forall_ascii (P := fun c =>
    (c = '$' || c = '_' || isIdStart c) = (c.isAlpha || c = '$' || c = '_')) (by decide)
  continues_ascii := fun _ => forall_ascii (P := fun c =>
    (c = '$' || c = '_' || c = '\u200c' || c = '\u200d' || isIdContinue c) =
      (c.isAlphanum || c = '$' || c = '_')) (by decide)
  continues_of_starts := fun c h => by
    simp only [Bool.or_eq_true] at h ⊢
    rcases h with (dollar | underscore) | letter
    · simp [dollar]
    · simp [underscore]
    · exact .inr (isIdContinue_of_isIdStart letter)

/-- What passes for the first character of a name starts one, unless it is a mark or a stray. -/
theorem standard_starts_iff {c : Char} (passes : startsIdentifier c = true) :
    standard.starts c = true ↔ isAlphabeticMark c = false ∧ isStray c = false := by
  show (c = '$' || c = '_' || isIdStart c) = true ↔ _
  simp only [startsIdentifier, Bool.or_eq_true, decide_eq_true_eq] at passes
  rcases passes with (rfl | rfl) | letter
  · decide
  · decide
  · have sign : c ≠ '$' ∧ c ≠ '_' := by
      constructor <;> rintro rfl <;> cases letter
    simp [sign, isIdStart, letter]

theorem standard_continues_iff {c : Char} (passes : continuesIdentifier c = true) :
    standard.continues c = true ↔ isStray c = false := by
  show (c = '$' || c = '_' || c = '\u200c' || c = '\u200d' || isIdContinue c) = true ↔ _
  simp only [continuesIdentifier, Bool.or_eq_true, decide_eq_true_eq] at passes
  by_cases counted : (isAlphabetic c || isNumeric c) = true
  · have sign : c ≠ '$' ∧ c ≠ '_' ∧ c ≠ '\u200c' ∧ c ≠ '\u200d' := by
      refine ⟨?_, ?_, ?_, ?_⟩ <;> rintro rfl <;> revert counted <;> decide +kernel
    simp [sign, isIdContinue, counted]
  · have sign : c = '$' ∨ c = '_' ∨ c = '\u200c' ∨ c = '\u200d' := by
      rw [Bool.or_eq_true] at counted
      rcases passes with sign | numeral
      · rcases sign with sign | letter
        · simpa only [or_assoc] using sign
        · exact absurd (.inl letter) counted
      · exact absurd (.inr numeral) counted
    rcases sign with rfl | rfl | rfl | rfl <;> decide +kernel

/-- **Which texts that pass for names are names**: no mark stands in front, and no stray
anywhere. -/
theorem isName_standard_iff {text : List Char} (passes : isIdentifierName text = true) :
    standard.isName text = true ↔
      (∀ c ∈ text.head?, isAlphabeticMark c = false) ∧ ∀ c ∈ text, isStray c = false := by
  cases text with
  | nil => cases passes
  | cons first rest =>
      simp only [isIdentifierName, Bool.and_eq_true, List.all_eq_true] at passes
      obtain ⟨firstPasses, restPasses⟩ := passes
      simp only [isName, Bool.and_eq_true, List.all_eq_true, List.head?_cons, Option.mem_some_iff,
        forall_eq', List.forall_mem_cons, standard_starts_iff firstPasses]
      have others : (∀ c ∈ rest, standard.continues c = true) ↔ ∀ c ∈ rest, isStray c = false :=
        forall₂_congr fun c member => standard_continues_iff (restPasses c member)
      rw [others, and_assoc]

end IdentifierClass

end EcmaScribe

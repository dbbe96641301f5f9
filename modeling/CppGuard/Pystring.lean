import CppGuard.Library.Separated

/-!
# String helpers

The functions of `pystring` that the options parser calls, in the C locale. A byte is the
character with its code. Sizes are converted to `int`, so the functions are what their names say
on strings of less than 2^31 bytes.
-/
namespace CppGuard.Pystring
open Separated

abbrev Str := List Char

/-- `MAX_32BIT_INT` -/
def maxInt : Nat := 2147483647

/-- The conversion of a size to `int`. -/
def toInt (n : Nat) : Int := (n : Int).bmod (2 ^ 32)

def isspace (c : Char) : Bool := c = ' ' || (9 ≤ c.toNat && c.toNat ≤ 13)

/-- The loop of `split`; `piece` is what was read since the last separator. -/
def splitLoop (sep : Char) : Nat → Str → Str → List Str
  | _, piece, [] => [piece]
  | maxsplit, piece, c :: str =>
    if c = sep then
      if maxsplit = 0 then [piece ++ c :: str]
      else piece :: splitLoop sep (maxsplit - 1) [] str
    else splitLoop sep maxsplit (piece ++ [c]) str

/-- `split` at a separator of one byte. -/
def split (str : Str) (sep : Char) : List Str := splitLoop sep maxInt [] str

/-- `find` of one byte, from the start of the string. -/
def find (str : Str) (sub : Char) : Int :=
  let len := toInt str.length
  let last := if (maxInt : Int) > len then len else maxInt
  let result := str.idxOf sub
  -- `end` is compared as a `size_type`
  if result = str.length ∨ last % 2 ^ 64 < result + 1 then -1 else toInt result

def partition (str : Str) (sep : Char) : Str × Str × Str :=
  let index := find str sep
  if index < 0 then (str, [], [])
  else (str.take index.toNat, [sep], str.drop (index.toNat + 1))

/-- `strip` of white space: `i` and `j` are where the loops of `do_strip` stop. -/
def strip (str : Str) : Str :=
  let len := (toInt str.length).toNat
  let i := ((str.take len).takeWhile isspace).length
  let j := len - (((str.take len).drop i).reverse.takeWhile isspace).length
  if i = 0 ∧ j = len then str else (str.drop i).take (j - i)

def lower (str : Str) : Str := str.map fun c => if c.isUpper then c.toLower else c

def isdigit (str : Str) : Bool := !str.isEmpty && str.all Char.isDigit

/-! ## Sizes -/

theorem toInt_eq (n : Nat) :
    toInt n = if n % 2 ^ 32 < 2 ^ 31 then ((n % 2 ^ 32 : Nat) : Int)
      else ((n % 2 ^ 32 : Nat) : Int) - 2 ^ 32 := by
  unfold toInt
  rw [Int.bmod_def]
  split_ifs <;> omega

theorem toInt_of_lt {n : Nat} (h : n < 2 ^ 31) : toInt n = n := by
  rw [toInt_eq]
  split_ifs <;> omega

theorem toNat_toInt_le (n : Nat) : (toInt n).toNat ≤ n := by
  rw [toInt_eq]
  split_ifs <;> omega

theorem toNat_toInt_lt (n : Nat) : (toInt n).toNat < 2 ^ 31 := by
  rw [toInt_eq]
  split_ifs <;> omega

/-! ## `split` -/

theorem splitLoop_eq {sep : Char} {maxsplit : Nat} {piece str : Str}
    (h : str.count sep ≤ maxsplit) :
    splitLoop sep maxsplit piece str = (str.splitOn sep).modifyHead (piece ++ ·) := by
  induction str generalizing maxsplit piece with
  | nil => simp [splitLoop]
  | cons c str ih =>
    rw [splitLoop]
    split_ifs with hsep hzero
    · simp [hsep, hzero] at h
    · rw [hsep, splitOn_cons_self, ih (by simp [hsep] at h; omega)]
      cases str.splitOn sep <;> simp
    · rw [splitOn_cons_of_ne hsep, ih (by simpa [List.count_cons_of_ne hsep] using h)]
      cases str.splitOn sep <;> simp

/-- A string has fewer separators than `split` would split at. -/
theorem split_eq {str : Str} {sep : Char} (h : str.count sep ≤ maxInt) :
    split str sep = str.splitOn sep := by
  rw [split, splitLoop_eq h]
  cases str.splitOn sep <;> simp

theorem split_of_lt {str : Str} {sep : Char} (h : str.length < 2 ^ 31) :
    split str sep = str.splitOn sep := by
  refine split_eq (List.count_le_length.trans ?_)
  unfold maxInt
  omega

theorem splitLoop_ne_nil (sep : Char) (maxsplit : Nat) (piece str : Str) :
    splitLoop sep maxsplit piece str ≠ [] := by
  induction str generalizing maxsplit piece with
  | nil => simp [splitLoop]
  | cons c str ih =>
    rw [splitLoop]
    split_ifs
    · simp
    · simp
    · exact ih _ _

@[simp] theorem split_ne_nil {str : Str} {sep : Char} : split str sep ≠ [] :=
  splitLoop_ne_nil _ _ _ _

theorem infix_of_mem_splitLoop {sep : Char} {maxsplit : Nat} {before str piece : Str}
    (h : piece ∈ splitLoop sep maxsplit before str) : piece <:+: before ++ str := by
  induction str generalizing maxsplit before with
  | nil =>
    obtain rfl : piece = before := by simpa [splitLoop] using h
    simp
  | cons c str ih =>
    rw [splitLoop] at h
    split_ifs at h
    · obtain rfl := List.mem_singleton.mp h
      exact List.infix_rfl
    · obtain rfl | h := List.mem_cons.mp h
      · exact (List.prefix_append _ _).isInfix
      · exact (ih h).trans ((List.suffix_cons c str).trans (List.suffix_append _ _)).isInfix
    · simpa using ih h

/-- Every piece is a part of the string, whatever the number of separators. -/
theorem infix_of_mem_split {str piece : Str} {sep : Char} (h : piece ∈ split str sep) :
    piece <:+: str := infix_of_mem_splitLoop h

theorem splitLoop_of_not_mem {sep : Char} {maxsplit : Nat} {piece str : Str} (h : sep ∉ str) :
    splitLoop sep maxsplit piece str = [piece ++ str] := by
  rw [splitLoop_eq (by simp [List.count_eq_zero_of_not_mem h]), List.splitOn_eq_singleton h]
  rfl

theorem splitLoop_append_cons {sep : Char} {maxsplit : Nat} {piece before after : Str}
    (h : sep ∉ before) :
    splitLoop sep (maxsplit + 1) piece (before ++ sep :: after) =
      (piece ++ before) :: splitLoop sep maxsplit [] after := by
  induction before generalizing piece with
  | nil => simp [splitLoop]
  | cons c before ih =>
    have hc : c ≠ sep := fun heq => h (heq ▸ List.mem_cons_self)
    rw [List.cons_append, splitLoop, if_neg hc, ih fun hmem => h (List.mem_cons_of_mem _ hmem)]
    simp

/-- Pieces that were joined are split again, and what follows them is split on its own. -/
theorem splitLoop_intercalate_append {sep : Char} {maxsplit : Nat} {pieces rest : List Str}
    (h : ∀ piece ∈ pieces, sep ∉ piece) (hrest : rest ≠ []) (hmax : pieces.length ≤ maxsplit) :
    splitLoop sep maxsplit [] ([sep].intercalate (pieces ++ rest)) =
      pieces ++ splitLoop sep (maxsplit - pieces.length) [] ([sep].intercalate rest) := by
  induction pieces generalizing maxsplit with
  | nil => rfl
  | cons piece pieces ih =>
    obtain ⟨m, rfl⟩ := Nat.exists_eq_add_of_le' (Nat.one_le_of_lt (Nat.lt_of_succ_le hmax))
    have hne : pieces ++ rest ≠ [] := by simp [hrest]
    rw [List.cons_append, List.intercalate_cons_of_ne_nil hne, List.append_assoc,
      List.singleton_append, splitLoop_append_cons (h piece List.mem_cons_self),
      ih (fun p hp => h p (List.mem_cons_of_mem _ hp)) (by simpa using hmax)]
    simp

theorem split_intercalate {sep : Char} {pieces : List Str} (h : ∀ piece ∈ pieces, sep ∉ piece)
    (hne : pieces ≠ []) (hmax : pieces.length ≤ maxInt) :
    split ([sep].intercalate pieces) sep = pieces := by
  obtain rfl | ⟨pieces, last, rfl⟩ := List.eq_nil_or_concat' pieces
  · exact absurd rfl hne
  · have hlast : sep ∉ last := h last (by simp)
    have hmax : pieces.length ≤ maxInt := by
      simp only [List.length_append] at hmax
      omega
    rw [split, splitLoop_intercalate_append (fun piece hp => h piece (by simp [hp])) (by simp) hmax,
      List.intercalate_singleton, splitLoop_of_not_mem hlast]
    rfl

/-! ## `find` and `partition` -/

/-- The byte is overlooked if its position is not below the size that `find` works with. -/
theorem find_append {before after : Str} {sub : Char} (hbefore : sub ∉ before)
    (hlen : before.length < 2 ^ 31) :
    find (before ++ sub :: after) sub =
      if before.length < (before ++ sub :: after).length % 2 ^ 32 then (before.length : Int)
      else -1 := by
  have hidx : (before ++ sub :: after).idxOf sub = before.length := by
    rw [List.idxOf_append_of_notMem hbefore]
    simp
  have hlt : before.length < (before ++ sub :: after).length := by simp
  simp only [find, maxInt, hidx, toInt_of_lt hlen, toInt_eq (before ++ sub :: after).length]
  generalize (before ++ sub :: after).length = n at hlt
  split_ifs <;> omega

theorem find_of_not_mem {str : Str} {sub : Char} (h : sub ∉ str) : find str sub = -1 := by
  simp [find, List.idxOf_eq_length h]

theorem partition_of_not_mem {str : Str} {sep : Char} (h : sep ∉ str) :
    partition str sep = (str, [], []) := by
  simp [partition, find_of_not_mem h]

/-- `partition` cuts at the first separator. -/
theorem partition_append {before after : Str} {sep : Char} (hbefore : sep ∉ before)
    (hlen : before.length < 2 ^ 31)
    (hsize : before.length < (before ++ sep :: after).length % 2 ^ 32) :
    partition (before ++ sep :: after) sep = (before, [sep], after) := by
  have hfind : find (before ++ sep :: after) sep = before.length := by
    rw [find_append hbefore hlen, if_pos hsize]
  simp [partition, hfind]

/-- When `partition` does not overlook the separator. -/
theorem partition_sep_iff {before after : Str} {sep : Char} (hbefore : sep ∉ before)
    (hlen : before.length < 2 ^ 31) :
    (partition (before ++ sep :: after) sep).2.1 = [sep] ↔
      before.length < (before ++ sep :: after).length % 2 ^ 32 := by
  refine ⟨fun h => ?_, fun hsize => by rw [partition_append hbefore hlen hsize]⟩
  by_contra hsize
  have hfind : find (before ++ sep :: after) sep = _ := find_append hbefore hlen
  rw [if_neg hsize] at hfind
  simp [partition, hfind] at h

theorem partition_of_lt {before after : Str} {sep : Char} (hbefore : sep ∉ before)
    (hlen : (before ++ sep :: after).length < 2 ^ 31) :
    partition (before ++ sep :: after) sep = (before, [sep], after) := by
  have hlt : before.length < (before ++ sep :: after).length := by simp
  refine partition_append hbefore (hlt.trans hlen) ?_
  omega

/-- What follows the separator, and what is before it, make up the string. -/
theorem length_partition {str : Str} {sep : Char} (h : (partition str sep).2.2 ≠ []) :
    (partition str sep).1.length + 1 + (partition str sep).2.2.length = str.length := by
  dsimp only [partition] at h ⊢
  split_ifs at h ⊢
  · cases h rfl
  · have := List.length_pos_of_ne_nil h
    simp only [List.length_take, List.length_drop] at this ⊢
    omega

theorem partition_isInfix (str : Str) (sep : Char) : (partition str sep).2.2 <:+: str := by
  dsimp only [partition]
  split_ifs
  · exact List.nil_infix
  · exact (List.drop_suffix _ _).isInfix

/-! ## `strip` -/

/-- `strip` looks at the size that fits an `int`; a string without blanks there is returned as it
is. -/
theorem strip_eq (str : Str) :
    strip str =
      if trim isspace (str.take (toInt str.length).toNat) = str.take (toInt str.length).toNat
      then str else trim isspace (str.take (toInt str.length).toNat) := by
  have hle := toNat_toInt_le str.length
  dsimp only [strip]
  generalize (toInt str.length).toNat = len at hle
  have hw : (str.take len).length = len := by simp [hle]
  have htrim := trim_eq_take_drop (p := isspace) (l := str.take len)
  have hi := (List.takeWhile_prefix (l := str.take len) isspace).length_le
  rw [hw] at hi
  generalize ((str.take len).takeWhile isspace).length = i at htrim hi ⊢
  have hk := (List.takeWhile_prefix (l := ((str.take len).drop i).reverse) isspace).length_le
  simp only [List.length_reverse, List.length_drop, hw] at hk htrim
  generalize (((str.take len).drop i).reverse.takeWhile isspace).length = k at htrim hk ⊢
  have hcut : trim isspace (str.take len) = (str.drop i).take (len - k - i) := by
    rw [htrim, List.drop_take, List.take_take]
    congr 1
    omega
  have hsame : i = 0 ∧ len - k = len ↔ trim isspace (str.take len) = str.take len := by
    constructor
    · rintro ⟨rfl, hj⟩
      rw [hcut, hj]
      simp
    · intro h
      have := congrArg List.length h
      rw [hw, htrim] at this
      simp only [List.length_take, List.length_drop] at this
      omega
  simp only [hsame, hcut]

theorem strip_of_lt {str : Str} (h : str.length < 2 ^ 31) : strip str = trim isspace str := by
  have htake : str.take (toInt str.length).toNat = str := by simp [toInt_of_lt h]
  rw [strip_eq, htake]
  split_ifs with hsame
  · exact hsame.symm
  · rfl

/-- Up to 2^32 bytes, a string without blanks at its ends is left alone. -/
theorem strip_of_trim {str : Str} (htrim : trim isspace str = str) (h : str.length < 2 ^ 32) :
    strip str = str := by
  rw [strip_eq, toInt_eq]
  split_ifs with hlow hsame
  · rfl
  · rw [List.take_of_length_le (by omega)]
    exact htrim
  · rfl
  · rename_i hsame
    refine absurd ?_ hsame
    rw [Int.toNat_of_nonpos (by omega)]
    simp

/-- Either nothing was stripped, or what is left fits an `int`. -/
theorem strip_cases (str : Str) :
    strip str = str ∨ (strip str).length < 2 ^ 31 ∧ trim isspace (strip str) = strip str := by
  rw [strip_eq]
  split_ifs
  · exact .inl rfl
  · refine .inr ⟨length_trim_le.trans_lt ?_, trim_trim⟩
    have := toNat_toInt_lt str.length
    simp only [List.length_take]
    omega

@[simp] theorem strip_strip (str : Str) : strip (strip str) = strip str := by
  obtain hsame | ⟨hlt, htrim⟩ := strip_cases str
  · rw [hsame, hsame]
  · rw [strip_of_lt hlt, htrim]

theorem strip_isInfix (str : Str) : strip str <:+: str := by
  rw [strip_eq]
  split_ifs
  · exact List.infix_rfl
  · exact trim_isInfix.trans (List.take_prefix _ _).isInfix

/-! ## `lower` -/

theorem isUpper_iff {c : Char} : c.isUpper = true ↔ 65 ≤ c.toNat ∧ c.toNat ≤ 90 := by
  simp [Char.isUpper, UInt32.le_iff_toNat_le]

theorem toNat_toLower (c : Char) :
    c.toLower.toNat = if 65 ≤ c.toNat ∧ c.toNat ≤ 90 then c.toNat + 32 else c.toNat := by
  by_cases h : c.val ≥ 'A'.val ∧ c.val ≤ 'Z'.val
  · have hnat : 65 ≤ c.toNat ∧ c.toNat ≤ 90 := by simpa [UInt32.le_iff_toNat_le] using h
    have hlower : c.toLower.val = c.val + 32 := by
      rw [Char.toLower, dif_pos h]
      rfl
    rw [if_pos hnat, Char.toNat, hlower, UInt32.toNat_add]
    simp
    omega
  · have hnat : ¬ (65 ≤ c.toNat ∧ c.toNat ≤ 90) := by simpa [UInt32.le_iff_toNat_le] using h
    rw [if_neg hnat, Char.toLower, dif_neg h]

theorem toLower_eq_self {c : Char} : c.toLower = c ↔ ¬ c.isUpper = true := by
  rw [← Char.toNat_inj, toNat_toLower, isUpper_iff]
  split_ifs <;> omega

theorem toLower_toLower (c : Char) : c.toLower.toLower = c.toLower := by
  rw [toLower_eq_self, isUpper_iff, toNat_toLower]
  split_ifs <;> omega

theorem isspace_eq_true {c : Char} :
    isspace c = true ↔ c.toNat = 32 ∨ 9 ≤ c.toNat ∧ c.toNat ≤ 13 := by
  simp [isspace, ← Char.toNat_inj]

theorem isspace_toLower (c : Char) : isspace c.toLower = isspace c := by
  rw [Bool.eq_iff_iff, isspace_eq_true, isspace_eq_true, toNat_toLower]
  split_ifs <;> omega

/-- Bytes that are no letters stay what they are, and no others become them. -/
theorem toLower_eq_iff {c d : Char} (hd : d.toNat < 65) : c.toLower = d ↔ c = d := by
  rw [← Char.toNat_inj, ← Char.toNat_inj, toNat_toLower]
  split_ifs <;> omega

theorem lower_eq_map (str : Str) : lower str = str.map Char.toLower := by
  refine List.map_congr_left fun c _ => ?_
  split_ifs with h
  · rfl
  · exact (toLower_eq_self.mpr h).symm

@[simp] theorem length_lower (str : Str) : (lower str).length = str.length := List.length_map _

@[simp] theorem lower_lower (str : Str) : lower (lower str) = lower str := by
  rw [lower_eq_map, lower_eq_map, List.map_map]
  exact List.map_congr_left fun c _ => toLower_toLower c

theorem lower_eq_self {str : Str} : lower str = str ↔ ∀ c ∈ str, ¬ c.isUpper = true := by
  simp only [lower_eq_map, ← toLower_eq_self]
  induction str with
  | nil => simp
  | cons c str ih => simp [ih]

theorem mem_lower {str : Str} {c : Char} (hc : c.toNat < 65) : c ∈ lower str ↔ c ∈ str := by
  simp [lower_eq_map, toLower_eq_iff hc]

theorem trim_lower (str : Str) : trim isspace (lower str) = lower (trim isspace str) := by
  rw [lower_eq_map, lower_eq_map, trim_map isspace_toLower]

theorem strip_lower (str : Str) : strip (lower str) = lower (strip str) := by
  have htake (n : Nat) : (lower str).take n = lower (str.take n) := List.map_take.symm
  have hinj : trim isspace (lower (str.take (toInt str.length).toNat)) =
      lower (str.take (toInt str.length).toNat) ↔
      trim isspace (str.take (toInt str.length).toNat) = str.take (toInt str.length).toNat := by
    rw [trim_lower]
    refine ⟨fun h => trim_isInfix.eq_of_length ?_, congrArg lower⟩
    simpa using congrArg List.length h
  rw [strip_eq, strip_eq, length_lower, htake]
  simp only [hinj]
  split_ifs
  · rfl
  · exact trim_lower _

theorem splitLoop_lower {sep : Char} (hsep : sep.toNat < 65) (maxsplit : Nat) (piece str : Str) :
    splitLoop sep maxsplit (lower piece) (lower str) =
      (splitLoop sep maxsplit piece str).map lower := by
  simp only [lower_eq_map]
  induction str generalizing maxsplit piece with
  | nil => simp [splitLoop, lower_eq_map]
  | cons c str ih =>
    rw [List.map_cons, splitLoop, splitLoop]
    simp only [toLower_eq_iff hsep]
    split_ifs
    · simp [lower_eq_map]
    · simpa [lower_eq_map] using ih (maxsplit - 1) []
    · simpa using ih maxsplit (piece ++ [c])

/-- Splitting at a byte that is no letter. -/
theorem split_lower {str : Str} {sep : Char} (hsep : sep.toNat < 65) :
    split (lower str) sep = (split str sep).map lower :=
  splitLoop_lower hsep maxInt [] str

/-! ## `isdigit` -/

theorem isdigit_iff {str : Str} : isdigit str = true ↔ str ≠ [] ∧ ∀ c ∈ str, c.isDigit = true := by
  simp [isdigit]

end CppGuard.Pystring

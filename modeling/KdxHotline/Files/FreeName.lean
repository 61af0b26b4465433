import Mathlib.Data.Finset.Card
import Mathlib.Data.Finset.Image
import Mathlib.Data.Finset.Range
import Mathlib.Data.List.DropRight
import Mathlib.Tactic.IntervalCases
import KdxHotline.Files.Names

/-!
# The first free variant of a name

A blind upload is stored under the first name in a fixed order that is free: the name
itself, then its variants (`KdxHotline.Files.candidate`). A variant ends in its counter
and the extension, so two variants are told apart by their counters
(`KdxHotline.Files.suffix_unique`), however much of the stem was cut off. The budget
leaves room for the longest counter, the longest extension and one character of the stem
(`KdxHotline.Files.variant_fits`), and nothing that is put together is less valid than the
name it was made of (`KdxHotline.Files.validateName_variant`).

Counting up ends at the largest counter, so there has to be a variant that is free
(`KdxHotline.Files.freeName_first`); and a name that ends in a counter of ten digits or
more, which is not split off, may come up again among its own variants
(`KdxHotline.Files.not_freeName_first`).
-/

namespace KdxHotline

namespace Files

open Foundations Limits

/-! ### Counters -/

/-- The counter of a variant, as it is written. -/
def counterText (n : ℕ) : List Char := (" (" ++ n.repr ++ ")").toList

theorem counterText_eq (n : ℕ) : counterText n = ' ' :: '(' :: (Nat.toDigits 10 n ++ [')']) := by
  simp [counterText, String.toList_append, Nat.toList_repr]

theorem digit_range {c : Char} (h : c.isDigit = true) : 48 ≤ c.toNat ∧ c.toNat ≤ 57 := by
  simp only [Char.isDigit, Bool.and_eq_true, decide_eq_true_eq] at h
  exact ⟨h.1, h.2⟩

theorem utf8Size_digit {c : Char} (h : c.isDigit = true) : c.utf8Size = 1 := by
  refine Char.utf8Size_eq_one_iff.mpr (UInt32.le_iff_toNat_le.mpr ?_)
  have hrange : c.val.toNat ≤ 57 := (digit_range h).2
  change c.val.toNat ≤ 127
  omega

theorem isDigit_of_mem {n : ℕ} {c : Char} (h : c ∈ Nat.toDigits 10 n) : c.isDigit = true :=
  Nat.isDigit_of_mem_toDigits (by decide) (by decide) h

/-- Digits are a byte each. -/
theorem byteLen_digits {cs : List Char} (h : ∀ c ∈ cs, c.isDigit = true) :
    byteLen cs = cs.length := by
  induction cs with
  | nil => rfl
  | cons c cs ih =>
    have htail := ih fun d hd => h d (List.mem_cons_of_mem _ hd)
    rw [byteLen, List.map_cons, List.sum_cons, utf8Size_digit (h c List.mem_cons_self),
      List.length_cons]
    rw [byteLen] at htail
    omega

theorem byteLen_counterText (n : ℕ) : byteLen (counterText n) = (Nat.toDigits 10 n).length + 3 := by
  have hdigits := byteLen_digits fun c (h : c ∈ Nat.toDigits 10 n) => isDigit_of_mem h
  rw [byteLen] at hdigits
  rw [counterText_eq, byteLen, List.map_cons, List.map_cons, List.map_append, List.sum_cons,
    List.sum_cons, List.sum_append, hdigits]
  change 1 + (1 + (_ + 1)) = _
  omega

/-- The longest counter has twenty digits. -/
theorem byteLen_counterText_le {n : ℕ} (h : n < 2 ^ 64) : byteLen (counterText n) ≤ 23 := by
  have hlength : (Nat.toDigits 10 n).length ≤ 20 :=
    (Nat.length_toDigits_le_iff (by decide) (by decide)).mpr (h.trans (by decide))
  rw [byteLen_counterText]
  omega

/-- What is found at the end of a stem, read backwards: the digits of its counter. -/
theorem reverse_counterText (cs : List Char) (n : ℕ) : (cs ++ counterText n).reverse =
    ')' :: ((Nat.toDigits 10 n).reverse ++ '(' :: ' ' :: cs.reverse) := by
  simp [counterText_eq]

theorem digits_ne_paren {n : ℕ} :
    ∀ c ∈ (Nat.toDigits 10 n).reverse, decide (c ≠ '(') = true := by
  intro c hc
  have hrange := digit_range (isDigit_of_mem (List.mem_reverse.mp hc))
  refine decide_eq_true fun he => ?_
  rw [he] at hrange
  exact absurd hrange (by decide)

/-- **A counter at the end of a text can be read off.** -/
theorem suffix_unique {cs ds ext : List Char} {n m : ℕ}
    (h : cs ++ counterText n ++ ext = ds ++ counterText m ++ ext) : n = m ∧ cs = ds := by
  have hstems : cs ++ counterText n = ds ++ counterText m := List.append_cancel_right h
  have hback := congrArg List.reverse hstems
  rw [reverse_counterText, reverse_counterText, List.cons_inj_right] at hback
  have hdigits := congrArg (List.takeWhile (· ≠ '(')) hback
  rw [List.takeWhile_append_of_pos digits_ne_paren, List.takeWhile_append_of_pos digits_ne_paren]
    at hdigits
  have hsame : Nat.toDigits 10 n = Nat.toDigits 10 m := by simpa using hdigits
  have hn : n = m := by
    rw [← Nat.ofDigitChars_ten_toDigits (n := n), hsame, Nat.ofDigitChars_ten_toDigits]
  subst hn
  exact ⟨rfl, List.append_cancel_right hstems⟩

/-! ### Splitting a name -/

/-- A counter is read as the number it was written for. -/
theorem parseCounter_digits {n k : ℕ} (h : parseCounter (Nat.toDigits 10 n) = some k) : k = n := by
  unfold parseCounter at h
  split at h
  · rw [← Nat.ofDigitChars_ten_toDigits (n := n), Nat.ofDigitChars_eq_foldl]
    exact (Option.some.inj h).symm
  · cases h

/-- A positive number is not written with a leading zero. -/
theorem head_digits {n : ℕ} (h : 0 < n) : (Nat.toDigits 10 n).head? ≠ some '0' := by
  induction n using Nat.strong_induction_on with
  | _ n ih =>
    by_cases hlt : n < 10
    · rw [Nat.toDigits_of_lt_base hlt]
      interval_cases n <;> decide
    · rw [Nat.toDigits_of_base_le (by decide) (by omega), List.head?_append]
      have hdiv := ih (n / 10) (by omega) (by omega)
      cases hhead : (Nat.toDigits 10 (n / 10)).head? with
      | none => exact absurd (List.head?_eq_none_iff.mp hhead) Nat.toDigits_ne_nil
      | some c =>
        rw [hhead] at hdiv
        exact hdiv

/-- A counter of at most nine digits is read. -/
theorem parseCounter_short {n : ℕ} (hpos : 0 < n) (hshort : n < 10 ^ 9) :
    parseCounter (Nat.toDigits 10 n) = some n := by
  have hlength : (Nat.toDigits 10 n).length ≤ 9 :=
    (Nat.length_toDigits_le_iff (by decide) (by decide)).mpr hshort
  have hdigits : (Nat.toDigits 10 n).all (fun c => '0' ≤ c && c ≤ '9') = true := by
    refine List.all_eq_true.mpr fun c hc => ?_
    obtain ⟨hlow, hhigh⟩ := digit_range (isDigit_of_mem hc)
    exact Bool.and_eq_true_iff.mpr ⟨decide_eq_true hlow, decide_eq_true hhigh⟩
  unfold parseCounter
  rw [if_pos ⟨Nat.length_toDigits_pos, hlength, head_digits hpos, hdigits⟩]
  conv_rhs => rw [← Nat.ofDigitChars_ten_toDigits (n := n), Nat.ofDigitChars_eq_foldl]

/-- **What a stem that ends in a counter is split into.** -/
theorem splitCounter_counterText {cs : List Char} {n : ℕ} (hne : cs ≠ []) :
    splitCounter (cs ++ counterText n) = (cs, n) ∨
      splitCounter (cs ++ counterText n) = (cs ++ counterText n, 1) ∧ (0 < n → 10 ^ 9 ≤ n) := by
  have hread : splitCounter (cs ++ counterText n) =
      (parseCounter (Nat.toDigits 10 n)).elim (cs ++ counterText n, 1) fun k => (cs, k) := by
    rw [splitCounter, reverse_counterText]
    simp only [List.takeWhile_append_of_pos digits_ne_paren,
      List.dropWhile_append_of_pos digits_ne_paren]
    have hopen : decide ('(' ≠ '(') = false := by decide
    rw [List.takeWhile_cons, List.dropWhile_cons, hopen]
    simp only [Bool.false_eq_true, if_false, List.append_nil, List.reverse_reverse]
    cases parseCounter (Nat.toDigits 10 n) with
    | none => rfl
    | some k => simp [hne]
  rw [hread]
  cases hparse : parseCounter (Nat.toDigits 10 n) with
  | some k =>
    obtain rfl := parseCounter_digits hparse
    exact .inl rfl
  | none =>
    refine .inr ⟨rfl, fun hpos => ?_⟩
    by_contra hshort
    rw [parseCounter_short hpos (not_le.mp hshort)] at hparse
    cases hparse

/-- What `splitExtension` cuts a name into. -/
theorem splitExtension_eq (name : List Char) :
    (splitExtension name).1 ++ (splitExtension name).2 = name ∧
      byteLen (splitExtension name).2 ≤ maxExtensionLen ∧
      (name ≠ [] → (splitExtension name).1 ≠ []) := by
  unfold splitExtension
  dsimp only
  split
  case isTrue h =>
    obtain ⟨hdot, hstem, -, hlen⟩ := h
    have hcut : name.reverse = name.reverse.takeWhile (· ≠ '.') ++ name.reverse.dropWhile (· ≠ '.') :=
      List.takeWhile_append_dropWhile.symm
    refine ⟨?_, ?_, fun _ => hstem⟩
    · cases hdrop : name.reverse.dropWhile (· ≠ '.') with
      | nil =>
        rw [hdrop] at hstem
        exact absurd rfl hstem
      | cons c rest =>
        have hhead := List.head?_dropWhile_not (· ≠ '.') name.reverse
        rw [hdrop] at hhead hcut
        obtain rfl : c = '.' := by simpa using hhead
        have hback := congrArg List.reverse hcut
        rw [List.reverse_reverse, List.reverse_append, List.reverse_cons, List.append_assoc] at hback
        exact hback.symm
    · rw [byteLen, List.map_cons, List.sum_cons, List.map_reverse, List.sum_reverse]
      change 1 + byteLen _ ≤ _
      omega
  case isFalse => exact ⟨List.append_nil _, Nat.zero_le _, id⟩

/-- A stem loses its counter at its end, if it has one. -/
theorem splitCounter_isPrefix (stem : List Char) :
    (splitCounter stem).1 <+: stem ∧ (stem ≠ [] → (splitCounter stem).1 ≠ []) := by
  unfold splitCounter
  split
  case h_2 => exact ⟨List.prefix_rfl, id⟩
  case h_1 body hbody =>
    dsimp only
    split
    case h_2 => exact ⟨List.prefix_rfl, id⟩
    case h_1 base hbase =>
      split
      case h_2 => exact ⟨List.prefix_rfl, id⟩
      case h_1 k hk =>
        split
        case isFalse => exact ⟨List.prefix_rfl, id⟩
        case isTrue hne =>
          refine ⟨?_, fun _ => by simpa using hne⟩
          have hsuffix : base <:+ stem.reverse := by
            rw [hbody]
            have hdrop : base <:+ body.dropWhile (· ≠ '(') := by
              rw [hbase]
              exact (List.suffix_cons _ _).trans (List.suffix_cons _ _)
            exact (hdrop.trans (List.dropWhile_suffix _)).trans (List.suffix_cons _ _)
          rw [← List.reverse_prefix, List.reverse_reverse] at hsuffix
          exact hsuffix

/-! ### Putting a variant together -/

theorem takeBytes_ne_nil {max : ℕ} (hmax : 4 ≤ max) {cs : List Char} (hne : cs ≠ []) :
    takeBytes max cs ≠ [] := by
  cases cs with
  | nil => exact absurd rfl hne
  | cons c cs =>
    rw [takeBytes, if_pos (c.utf8Size_le_four.trans hmax)]
    exact List.cons_ne_nil _ _

/-- The character after the cut would not have fitted. -/
theorem takeBytes_full {max : ℕ} {cs rest : List Char} {c : Char}
    (h : takeBytes max (cs ++ c :: rest) = cs) : max < byteLen cs + c.utf8Size := by
  induction cs generalizing max with
  | nil =>
    rw [List.nil_append, takeBytes] at h
    split at h
    · cases h
    · simpa [byteLen] using not_le.mp ‹_›
  | cons d cs ih =>
    rw [List.cons_append, takeBytes] at h
    split at h
    case isTrue hfits =>
      have hrest := ih (List.cons.inj h).2
      rw [byteLen, List.map_cons, List.sum_cons]
      rw [byteLen] at hrest
      omega
    case isFalse => cases h

/-- **There is room for every variant**, as long as the counter fits its 64 bits. -/
theorem variant_fits {stem ext : List Char} {budget n : ℕ} (hstem : stem ≠ [])
    (hext : byteLen ext ≤ maxExtensionLen) (hbudget : minVariantBudget ≤ budget) (hn : n < 2 ^ 64) :
    variant stem ext budget n = some (String.ofList
      (takeBytes (budget - (byteLen (counterText n) + byteLen ext)) stem ++ counterText n ++ ext)) ∧
    takeBytes (budget - (byteLen (counterText n) + byteLen ext)) stem ≠ [] := by
  have hcounter := byteLen_counterText_le hn
  rw [maxExtensionLen] at hext
  rw [minVariantBudget] at hbudget
  have hkept : takeBytes (budget - (byteLen (counterText n) + byteLen ext)) stem ≠ [] :=
    takeBytes_ne_nil (by omega) hstem
  refine ⟨?_, hkept⟩
  change (if budget < byteLen (counterText n) + byteLen ext then none else _) = _
  rw [if_neg (by omega)]
  change (if (takeBytes (budget - (byteLen (counterText n) + byteLen ext)) stem).isEmpty then none
    else _) = _
  rw [if_neg (by simpa using hkept)]
  rfl

/-! ### Valid names -/

/-- A character a name may have. -/
def Allowed (c : Char) : Prop := c ≠ '/' ∧ isControl c = false ∧ isBidiControl c = false

instance decidableAllowed (c : Char) : Decidable (Allowed c) := inferInstanceAs (Decidable (_ ∧ _))

theorem checkNameChars_eq_ok {cs : List Char} :
    checkNameChars cs = .ok () ↔ ∀ c ∈ cs, Allowed c := by
  induction cs with
  | nil => simp [checkNameChars]
  | cons c cs ih =>
    rw [checkNameChars, List.forall_mem_cons, ← ih, Allowed]
    simp [checks_pass, and_assoc]

/-- A text is trimmed when it neither begins nor ends with whitespace. -/
theorem trim_eq_self {cs : List Char} : trim cs = cs ↔
    (∀ c ∈ cs.head?, isWhitespace c = false) ∧ ∀ c ∈ cs.getLast?, isWhitespace c = false := by
  have hfront : cs.dropWhile isWhitespace = cs ↔ ∀ c ∈ cs.head?, isWhitespace c = false := by
    cases cs with
    | nil => simp
    | cons c cs => simp [List.dropWhile_eq_self_iff]
  have hback : cs.rdropWhile isWhitespace = cs ↔ ∀ c ∈ cs.getLast?, isWhitespace c = false := by
    rw [List.rdropWhile_eq_self_iff]
    cases cs using List.reverseRecOn with
    | nil => simp
    | append_singleton cs c => simp
  rw [← hfront, ← hback]
  change (cs.dropWhile isWhitespace).rdropWhile isWhitespace = cs ↔ _
  constructor
  · intro h
    have hlength : ((cs.dropWhile isWhitespace).rdropWhile isWhitespace).length ≤
        (cs.dropWhile isWhitespace).length := (List.rdropWhile_prefix _ _).length_le
    rw [h] at hlength
    have hsame : cs.dropWhile isWhitespace = cs :=
      (List.dropWhile_suffix _).eq_of_length_le hlength
    rw [hsame] at h
    exact ⟨hsame, h⟩
  · rintro ⟨h, h'⟩
    rw [h, h']

/-- **What makes a name valid.** -/
theorem validateName_eq_ok {name : String} : validateName name = .ok () ↔
    name ≠ "" ∧ name.utf8ByteSize ≤ maxFileNameLen ∧ name ≠ "." ∧ name ≠ ".." ∧
      trim name.toList = name.toList ∧ ∀ c ∈ name.toList, Allowed c := by
  rw [← checkNameChars_eq_ok, validateName]
  simp [checks_pass, and_assoc]

/-! ### The candidates, in their order -/

/-- The candidates that `freeName` would try: the name, then its variants. -/
def candidate (name : String) (budget : ℕ) : ℕ → Option String
  | 0 => some name
  | i + 1 =>
    let (stem, k, ext) := splitVariant name
    variant stem ext budget (k + i + 1)

/-- How many variants a name has before the counter overflows. -/
def variants (name : String) : ℕ := 2 ^ 64 - 1 - (splitVariant name).2.1

section Search

variable {stem ext : List Char} {budget n fuel : ℕ} {taken : String → Bool}

/-- **The search stops at the first variant that is free**, and comes back with nothing
only if all are taken. -/
theorem freeVariant_first (hfits : ∀ i < fuel, ∃ u, variant stem ext budget (n + i + 1) = some u) :
    (∃ i < fuel, ∃ v, variant stem ext budget (n + i + 1) = some v ∧
      freeVariant stem ext budget taken fuel n = some v ∧ taken v = false ∧
      ∀ j < i, ∃ u, variant stem ext budget (n + j + 1) = some u ∧ taken u = true) ∨
    freeVariant stem ext budget taken fuel n = none ∧
      ∀ j < fuel, ∃ u, variant stem ext budget (n + j + 1) = some u ∧ taken u = true := by
  induction fuel generalizing n with
  | zero => exact .inr ⟨rfl, nofun⟩
  | succ fuel ih =>
    obtain ⟨u, hu⟩ := hfits 0 (Nat.succ_pos _)
    rw [Nat.add_zero] at hu
    have hnext : ∀ i < fuel, ∃ u, variant stem ext budget (n + 1 + i + 1) = some u := by
      intro i hi
      rw [Nat.add_right_comm n 1 i]
      exact hfits (i + 1) (Nat.succ_lt_succ hi)
    have hstep : freeVariant stem ext budget taken (fuel + 1) n =
        if taken u then freeVariant stem ext budget taken fuel (n + 1) else some u := by
      rw [freeVariant, hu]
      rfl
    cases htaken : taken u with
    | false => exact .inl ⟨0, Nat.succ_pos _, u, hu, by rw [hstep, htaken]; rfl, htaken, nofun⟩
    | true =>
      rw [htaken, if_pos rfl] at hstep
      rw [hstep]
      -- the first variant was taken, so all before the one found are
      have hbefore : ∀ {i}, (∀ j < i, ∃ u, variant stem ext budget (n + 1 + j + 1) = some u ∧
          taken u = true) → ∀ j < i + 1, ∃ u, variant stem ext budget (n + j + 1) = some u ∧
          taken u = true := by
        intro i h j hj
        cases j with
        | zero => exact ⟨u, hu, htaken⟩
        | succ j =>
          have hj' := h j (Nat.lt_of_succ_lt_succ hj)
          rwa [Nat.add_right_comm n 1 j] at hj'
      rcases ih hnext with ⟨i, hi, v, hv, hfree, hnot, hall⟩ | ⟨hnone, hall⟩
      · refine .inl ⟨i + 1, Nat.succ_lt_succ hi, v, ?_, hfree, hnot, hbefore hall⟩
        rwa [Nat.add_right_comm n 1 i] at hv
      · exact .inr ⟨hnone, hbefore hall⟩

end Search

/-! ### Variants of a valid name -/

section Variants

variable {name v : String} {budget n m : ℕ}

/-- What a valid name is split into, and what its variants are made of. -/
theorem splitVariant_parts (hne : name ≠ "") :
    ∃ stem k ext cut, splitVariant name = (stem, k, ext) ∧ name.toList = cut ++ ext ∧
      stem <+: cut ∧ stem ≠ [] ∧ byteLen ext ≤ maxExtensionLen ∧
      splitCounter cut = (stem, k) ∧ (splitExtension name.toList).1 = cut := by
  obtain ⟨hname, hext, hcut⟩ := splitExtension_eq name.toList
  obtain ⟨hstem, hstem'⟩ := splitCounter_isPrefix (splitExtension name.toList).1
  have hchars : name.toList ≠ [] := fun h => hne (String.toList_eq_nil_iff.mp h)
  exact ⟨_, _, _, _, rfl, hname.symm, hstem, hstem' (hcut hchars), hext, rfl, rfl⟩

/-- **The variants of a valid name are there, and told apart by their counters.** -/
theorem candidate_variant (hne : name ≠ "") (hbudget : minVariantBudget ≤ budget)
    (hn : n < variants name) : ∃ stem k ext cut kept, splitVariant name = (stem, k, ext) ∧
      name.toList = cut ++ ext ∧ splitCounter cut = (stem, k) ∧ (splitExtension name.toList).1 = cut ∧
      kept = takeBytes (budget - (byteLen (counterText (k + n + 1)) + byteLen ext)) stem ∧
      kept <+: stem ∧ stem <+: cut ∧ kept ≠ [] ∧
      candidate name budget (n + 1) = some (String.ofList (kept ++ counterText (k + n + 1) ++ ext)) := by
  obtain ⟨stem, k, ext, cut, hsplit, hname, hprefix, hstem, hext, hcounter, hcut⟩ :=
    splitVariant_parts hne
  rw [variants, hsplit] at hn
  change n < 2 ^ 64 - 1 - k at hn
  obtain ⟨hvariant, hkept⟩ := variant_fits (n := k + n + 1) hstem hext hbudget (by omega)
  refine ⟨stem, k, ext, cut, _, hsplit, hname, hcounter, hcut, rfl, takeBytes_isPrefix _ _, hprefix,
    hkept, ?_⟩
  rw [candidate, hsplit]
  exact hvariant

theorem candidate_le (h : candidate name budget (n + 1) = some v) : v.utf8ByteSize ≤ budget :=
  variant_le h

/-- **Two variants are never the same.** -/
theorem candidate_injective (hne : name ≠ "") (hbudget : minVariantBudget ≤ budget)
    (hn : n < variants name) (hm : m < variants name)
    (h : candidate name budget (n + 1) = candidate name budget (m + 1)) : n = m := by
  obtain ⟨stem, k, ext, _, kept, hsplit, -, -, -, -, -, -, -, hcn⟩ := candidate_variant hne hbudget hn
  obtain ⟨stem', k', ext', _, kept', hsplit', -, -, -, -, -, -, -, hcm⟩ :=
    candidate_variant hne hbudget hm
  obtain ⟨rfl, rfl, rfl⟩ : stem = stem' ∧ k = k' ∧ ext = ext' := by
    simpa using hsplit.symm.trans hsplit'
  rw [hcn, hcm, Option.some_inj] at h
  have hchars := String.ofList_injective h
  have hcounters := (suffix_unique hchars).1
  omega

/-- A counter has only characters a name may have. -/
theorem allowed_counterText : ∀ c ∈ counterText n, Allowed c := by
  intro c hc
  rw [counterText_eq, List.mem_cons, List.mem_cons, List.mem_append, List.mem_singleton] at hc
  rcases hc with rfl | rfl | hdigit | rfl
  · decide
  · decide
  · obtain ⟨hlow, hhigh⟩ := digit_range (isDigit_of_mem hdigit)
    refine ⟨?_, ?_, ?_⟩
    · rintro rfl
      exact absurd hlow (by decide)
    · simp only [isControl, Bool.or_eq_false_iff, decide_eq_false_iff_not]
      omega
    · simp only [isBidiControl, Bool.or_eq_false_iff, beq_eq_false_iff_ne, decide_eq_false_iff_not]
      omega
  · decide

/-- **A variant is no less valid than its name.** -/
theorem validateName_candidate (hvalid : validateName name = .ok ())
    (hbudget : minVariantBudget ≤ budget) (hmax : budget ≤ maxFileNameLen) (hn : n < variants name)
    (h : candidate name budget (n + 1) = some v) : validateName v = .ok () := by
  obtain ⟨hne, -, -, -, htrim, hchars⟩ := validateName_eq_ok.mp hvalid
  obtain ⟨stem, k, ext, cut, kept, -, hname, -, -, -, hkept, hstem, hkeptne, hc⟩ :=
    candidate_variant hne hbudget hn
  have hle := candidate_le h
  rw [h, Option.some_inj] at hc
  subst hc
  obtain ⟨c, kept', rfl⟩ := List.exists_cons_of_ne_nil hkeptne
  have hsub : ∀ d ∈ c :: kept', d ∈ name.toList := by
    intro d hd
    rw [hname]
    exact List.mem_append_left _ (hstem.subset (hkept.subset hd))
  -- a counter has four characters at least, so it is not one of the reserved names
  have hlong : ∀ s : String, s.toList.length < 4 →
      String.ofList (c :: kept' ++ counterText (k + n + 1) ++ ext) ≠ s := by
    rintro s hs rfl
    rw [String.toList_ofList, counterText_eq] at hs
    simp only [List.length_append, List.length_cons] at hs
    omega
  obtain ⟨hfirst, hlast⟩ := trim_eq_self.mp htrim
  refine validateName_eq_ok.mpr ⟨hlong _ (by decide), hle.trans hmax, hlong _ (by decide),
    hlong _ (by decide), ?_, ?_⟩
  · -- it begins as the name does, and ends as it does or in a bracket
    rw [String.toList_ofList, trim_eq_self]
    constructor
    · obtain ⟨rest, hrest⟩ := (hkept.trans hstem).trans (List.prefix_append cut ext)
      rw [hname, ← hrest] at hfirst
      exact hfirst
    · cases ext using List.reverseRecOn with
      | nil =>
        have hbracket : c :: kept' ++ counterText (k + n + 1) =
            (c :: kept' ++ ' ' :: '(' :: Nat.toDigits 10 (k + n + 1)) ++ [')'] := by
          simp [counterText_eq]
        rw [List.append_nil, hbracket, List.getLast?_concat]
        rintro d hd
        cases hd
        decide
      | append_singleton ext d =>
        rw [hname, ← List.append_assoc, List.getLast?_concat] at hlast
        rw [← List.append_assoc, List.getLast?_concat]
        exact hlast
  · rw [String.toList_ofList]
    intro d hd
    rcases List.mem_append.mp hd with hd | hd
    · rcases List.mem_append.mp hd with hd | hd
      · exact hchars d (hsub d hd)
      · exact allowed_counterText d hd
    · exact hchars d (hname ▸ List.mem_append_right _ hd)

/-- The name fills the budget, and its stem ends in a counter of ten digits or more. -/
def LongCounter (name : String) (budget : ℕ) : Prop :=
  name.utf8ByteSize = budget ∧ ∃ base n, base ≠ [] ∧ 10 ^ 9 ≤ n ∧ n < 2 ^ 64 ∧
    (splitExtension name.toList).1 = base ++ counterText n

/-- **A name is none of its own variants**, unless it ends in a long counter. -/
theorem longCounter_of_candidate (hne : name ≠ "") (hbudget : minVariantBudget ≤ budget)
    (hle : name.utf8ByteSize ≤ budget) (hn : n < variants name)
    (h : candidate name budget (n + 1) = some name) : LongCounter name budget := by
  obtain ⟨stem, k, ext, cut, kept, hsplit, hname, hcounter, hcut, hkept, -, -, hkeptne, hc⟩ :=
    candidate_variant hne hbudget hn
  rw [variants, hsplit] at hn
  change n < 2 ^ 64 - 1 - k at hn
  rw [h, Option.some_inj] at hc
  have hchars := congrArg String.toList hc
  rw [String.toList_ofList, hname] at hchars
  have hends : cut = kept ++ counterText (k + n + 1) := List.append_cancel_right hchars
  rcases splitCounter_counterText hkeptne (n := k + n + 1) with hread | ⟨hread, hlong⟩
  · -- a counter that was read is one that the variants go on from
    rw [← hends, hcounter] at hread
    obtain ⟨-, hk⟩ := Prod.mk.inj hread
    omega
  · rw [← hends, hcounter] at hread
    obtain ⟨rfl, -⟩ := Prod.mk.inj hread
    refine ⟨?_, kept, k + n + 1, hkeptne, hlong (by omega), by omega, hcut.trans hends⟩
    have hfull : takeBytes (budget - (byteLen (counterText (k + n + 1)) + byteLen ext))
        (kept ++ ' ' :: ('(' :: (Nat.toDigits 10 (k + n + 1) ++ [')']))) = kept := by
      rw [← counterText_eq, ← hends]
      exact hkept.symm
    have hroom := takeBytes_full hfull
    have hspace : Char.utf8Size ' ' = 1 := rfl
    have hsize : name.utf8ByteSize = byteLen kept + byteLen (counterText (k + n + 1)) + byteLen ext := by
      rw [hc, utf8ByteSize_ofList, byteLen_append, byteLen_append]
    omega

/-- As many names are taken as there are candidates that are, from the one at `d` on, if
these are all different. -/
theorem le_card_taken {taken : Finset String} {d : ℕ}
    (htaken : ∀ i < m, ∃ u ∈ taken, candidate name budget (i + d) = some u)
    (hinj : ∀ i < m, ∀ j < m, candidate name budget (i + d) = candidate name budget (j + d) → i = j) :
    m ≤ taken.card := by
  have hcard := Finset.card_le_card_of_injOn (s := Finset.range m) (t := taken)
    (fun i => (candidate name budget (i + d)).getD "") ?_ ?_
  · rwa [Finset.card_range] at hcard
  · intro i hi
    obtain ⟨u, hu, hc⟩ := htaken i (Finset.mem_range.mp hi)
    simp only [hc, Option.getD_some]
    exact hu
  · intro i hi j hj h
    have hi' := Finset.mem_range.mp hi
    have hj' := Finset.mem_range.mp hj
    obtain ⟨u, -, hu⟩ := htaken i hi'
    obtain ⟨u', -, hu'⟩ := htaken j hj'
    simp only [hu, hu', Option.getD_some] at h
    exact hinj i hi' j hj' (by rw [hu, hu', h])

/-- **Taken or not, the search goes through the candidates in their order.** -/
theorem freeName_search (hvalid : validateName name = .ok ()) (hbudget : minVariantBudget ≤ budget)
    (taken : Finset String) :
    (∃ n ≤ variants name, ∃ v, candidate name budget n = some v ∧
      freeName name budget (fun u => decide (u ∈ taken)) = some v ∧ v ∉ taken ∧
      ∀ i < n, ∃ u ∈ taken, candidate name budget i = some u) ∨
    freeName name budget (fun u => decide (u ∈ taken)) = none ∧
      ∀ i ≤ variants name, ∃ u ∈ taken, candidate name budget i = some u := by
  have hne := (validateName_eq_ok.mp hvalid).1
  by_cases hname : name ∈ taken
  case neg =>
    refine .inl ⟨0, Nat.zero_le _, name, rfl, ?_, hname, nofun⟩
    rw [freeName, decide_eq_false hname]
    rfl
  case pos =>
    -- the name is taken, so the variants are gone through
    have hwalk : freeName name budget (fun u => decide (u ∈ taken)) =
        freeVariant (splitVariant name).1 (splitVariant name).2.2 budget
          (fun u => decide (u ∈ taken)) (variants name) (splitVariant name).2.1 := by
      rw [freeName, decide_eq_true hname]
      rfl
    have hbefore : ∀ {i}, (∀ j < i, ∃ u, variant (splitVariant name).1 (splitVariant name).2.2 budget
        ((splitVariant name).2.1 + j + 1) = some u ∧ decide (u ∈ taken) = true) →
        ∀ j < i + 1, ∃ u ∈ taken, candidate name budget j = some u := by
      intro i h j hj
      cases j with
      | zero => exact ⟨name, hname, rfl⟩
      | succ j =>
        obtain ⟨u, hu, htaken⟩ := h j (Nat.lt_of_succ_lt_succ hj)
        exact ⟨u, of_decide_eq_true htaken, hu⟩
    have hfits : ∀ i < variants name, ∃ u, variant (splitVariant name).1 (splitVariant name).2.2
        budget ((splitVariant name).2.1 + i + 1) = some u := by
      intro i hi
      obtain ⟨_, _, _, _, _, -, -, -, -, -, -, -, -, hc⟩ := candidate_variant hne hbudget hi
      exact ⟨_, hc⟩
    rw [hwalk]
    rcases freeVariant_first hfits with ⟨i, hi, v, hv, hfree, hnot, hall⟩ | ⟨hnone, hall⟩
    · exact .inl ⟨i + 1, hi, v, hv, hfree, of_decide_eq_false hnot, hbefore hall⟩
    · exact .inr ⟨hnone, fun i hi => hbefore hall i (Nat.lt_succ_of_le hi)⟩

/-- **The first free variant is found**, for every valid name, every budget that has room
for it and for variants, and every finite set of taken names that leaves some variant
free: the search stops at the first candidate that is not taken, which is a valid name
within the budget, after no more candidates than there are taken names and one. Its
variants are all different, and differ from the name unless that ends in a long
counter. -/
theorem freeName_first {taken : Finset String} (hvalid : validateName name = .ok ())
    (hbudget : max name.utf8ByteSize minVariantBudget ≤ budget) (hmax : budget ≤ maxFileNameLen)
    (hroom : taken.card < variants name) :
    (∃ n v, candidate name budget n = some v ∧
      freeName name budget (fun u => decide (u ∈ taken)) = some v ∧ v ∉ taken ∧
      validateName v = .ok () ∧ v.utf8ByteSize ≤ budget ∧
      (∀ i < n, ∃ u ∈ taken, candidate name budget i = some u) ∧ n ≤ taken.card + 1 ∧
      (¬LongCounter name budget → n ≤ taken.card)) ∧
    (∀ i < variants name, ∀ j < variants name,
      candidate name budget (i + 1) = candidate name budget (j + 1) → i = j) ∧
    (¬LongCounter name budget → ∀ i < variants name, candidate name budget (i + 1) ≠ some name) := by
  obtain ⟨hname, hvariant⟩ := max_le_iff.mp hbudget
  have hne := (validateName_eq_ok.mp hvalid).1
  have hdistinct : ∀ i < variants name, ∀ j < variants name,
      candidate name budget (i + 1) = candidate name budget (j + 1) → i = j :=
    fun i hi j hj => candidate_injective hne hvariant hi hj
  have hother : ¬LongCounter name budget → ∀ i < variants name, candidate name budget (i + 1) ≠ some name :=
    fun hlong i hi h => hlong (longCounter_of_candidate hne hvariant hname hi h)
  -- variants that are all taken are as many different names of `taken`
  have hvariants : ∀ {m}, m ≤ variants name →
      (∀ i < m + 1, ∃ u ∈ taken, candidate name budget i = some u) → m ≤ taken.card := by
    intro m hm hall
    exact le_card_taken (d := 1) (fun i hi => hall (i + 1) (Nat.succ_lt_succ hi))
      fun i hi j hj => hdistinct i (hi.trans_le hm) j (hj.trans_le hm)
  refine ⟨?_, hdistinct, hother⟩
  rcases freeName_search hvalid hvariant taken with ⟨n, hn, v, hv, hfree, hnot, hall⟩ | ⟨-, hall⟩
  case inr => exact absurd (hvariants le_rfl fun i hi => hall i (Nat.le_of_lt_succ hi)) (not_le.mpr hroom)
  case inl =>
    refine ⟨n, v, hv, hfree, hnot, ?_, ?_, hall, ?_, fun hlong => ?_⟩
    · cases n with
      | zero => exact Option.some.inj hv ▸ hvalid
      | succ n => exact validateName_candidate hvalid hvariant hmax hn hv
    · cases n with
      | zero => exact Option.some.inj hv ▸ hname
      | succ n => exact candidate_le hv
    · cases n with
      | zero => exact Nat.zero_le _
      | succ n => exact Nat.succ_le_succ (hvariants (Nat.le_of_succ_le hn) hall)
    · -- the name counts as one of the different candidates
      refine le_card_taken (d := 0) hall fun i hi j hj h => ?_
      cases i with
      | zero =>
        cases j with
        | zero => rfl
        | succ j => exact absurd h.symm (hother hlong j (by omega))
      | succ i =>
        cases j with
        | zero => exact absurd h (hother hlong i (by omega))
        | succ j => rw [hdistinct i (by omega) j (by omega) h]

end Variants

/-! Two uploads under one name. -/

theorem freeName_first_report : ∃ n v, candidate "report.pdf" 255 n = some v ∧
    freeName "report.pdf" 255 (fun u => decide (u ∈ ({"report.pdf"} : Finset String))) = some v ∧
    v ≠ "report.pdf" ∧ n ≤ 2 := by
  have hvalid : validateName "report.pdf" = .ok () := by decide +kernel
  have hroom : ({"report.pdf"} : Finset String).card < variants "report.pdf" := by decide +kernel
  have hbudget : max "report.pdf".utf8ByteSize minVariantBudget ≤ 255 := by decide
  obtain ⟨⟨n, v, hv, hfree, hnot, -, -, -, hn, -⟩, -⟩ :=
    freeName_first hvalid hbudget (by decide) hroom
  exact ⟨n, v, hv, hfree, fun he => hnot (Finset.mem_singleton.mpr he), hn⟩

/-- A name of 255 bytes that ends in a counter of ten digits, as characters. -/
def longChars : List Char := List.replicate 242 'a' ++ counterText 1234567890

/-- The long name is valid. -/
theorem validateName_longChars : validateName (String.ofList longChars) = .ok () := by
  refine validateName_eq_ok.mpr ⟨?_, ?_, ?_, ?_, ?_, ?_⟩
  · exact fun h => absurd (String.ofList_injective h) (by decide +kernel)
  · rw [utf8ByteSize_ofList]
    decide +kernel
  · exact fun h => absurd (String.ofList_injective (h.trans String.ofList_toList.symm)) (by decide +kernel)
  · exact fun h => absurd (String.ofList_injective (h.trans String.ofList_toList.symm)) (by decide +kernel)
  · rw [String.toList_ofList]
    decide +kernel
  · rw [String.toList_ofList]
    refine List.forall_mem_append.mpr ⟨fun c hc => ?_, allowed_counterText⟩
    rw [List.eq_of_mem_replicate hc]
    decide

/-- The candidate of the long counter is the name itself. -/
theorem candidate_longChars :
    candidate (String.ofList longChars) 255 1234567889 = some (String.ofList longChars) := by
  have hsplit : splitVariant (String.ofList longChars) = (longChars, 1, []) := by
    rw [splitVariant, String.toList_ofList]
    decide +kernel
  have hkept : takeBytes (255 - (byteLen (counterText 1234567890) + byteLen [])) longChars =
      List.replicate 242 'a' := by decide +kernel
  have hne : longChars ≠ [] := by decide
  have hext : byteLen [] ≤ maxExtensionLen := by decide
  have hbudget : minVariantBudget ≤ 255 := by decide
  have hcounter : 1234567890 < 2 ^ 64 := by decide
  obtain ⟨hvariant, -⟩ := variant_fits hne hext hbudget hcounter
  rw [candidate, hsplit]
  rw [hkept, List.append_nil] at hvariant
  exact hvariant

/-- When all variants are taken nothing is found, and a name may be one of its own
variants. -/
theorem not_freeName_first :
    (¬∀ (name : String) (budget : ℕ) (taken : Finset String), validateName name = .ok () →
      max name.utf8ByteSize minVariantBudget ≤ budget → budget ≤ maxFileNameLen →
      ∃ v, freeName name budget (fun u => decide (u ∈ taken)) = some v) ∧
    ¬∀ (name : String) (budget : ℕ), validateName name = .ok () →
      max name.utf8ByteSize minVariantBudget ≤ budget → budget ≤ maxFileNameLen →
      ∀ i < variants name, candidate name budget (i + 1) ≠ some name := by
  refine ⟨fun h => ?_, fun h => ?_⟩
  · let taken : Finset String :=
      insert "a" ((Finset.range (variants "a")).image fun i => (candidate "a" 48 (i + 1)).getD "")
    have hvalid : validateName "a" = .ok () := by decide +kernel
    have hbudget : minVariantBudget ≤ 48 := by decide
    obtain ⟨v, hv⟩ := h "a" 48 taken hvalid (by decide) (by decide)
    rcases freeName_search hvalid hbudget taken with
      ⟨n, hn, u, hu, -, hnot, -⟩ | ⟨hnone, -⟩
    · refine hnot ?_
      cases n with
      | zero => exact Finset.mem_insert.mpr (.inl (Option.some.inj hu).symm)
      | succ n =>
        refine Finset.mem_insert_of_mem (Finset.mem_image.mpr ⟨n, Finset.mem_range.mpr hn, ?_⟩)
        rw [hu, Option.getD_some]
    · rw [hnone] at hv
      cases hv
  · refine h (String.ofList longChars) 255 validateName_longChars ?_ (by decide) 1234567888 ?_
      candidate_longChars
    · rw [utf8ByteSize_ofList]
      decide +kernel
    · rw [variants, splitVariant, String.toList_ofList]
      decide +kernel

end Files

end KdxHotline

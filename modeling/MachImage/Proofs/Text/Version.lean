import MachImage.Text.Version
import Mathlib.Algebra.Ring.Nat
import Mathlib.Tactic.Common

/-!
# Versions and identifiers read back

Nothing is lost when a version or an identifier is shown as text.

* A packed number is cut into fields of some widths (`fields`) and put together
  again (`pack?`), which gives the number back up to the widths
  (`pack?_fields`).  Fields that are missing at the end count as zero, so the
  zeros that a source version leaves out make no difference
  (`pack?_append_zeros`).
* A component is a decimal numeral, and components stand between dots:
  `components?` reads them, and undoes `dotted` (`components?_dotted`).
* An identifier is read from pairs of hexadecimal digits, with the dashes left
  out (`hexBytes?_flatMap_upperByte`).

`shown_read_back` puts this together for both kinds of version and for
identifiers.
-/

namespace MachImage

/-! ## Fields of a packed number -/

/-- The fields of a number that is packed into fields of so many bits, the highest first. -/
def fields : (widths : List Nat) → (n : Nat) → List Nat
  | [], _ => []
  | w :: ws, n => n / 2 ^ ws.sum % 2 ^ w :: fields ws n

/-- The number with the given fields, those that are missing at the end being zero.  There is none
if there are too many of them or one does not fit its width. -/
def pack? : (widths fields : List Nat) → Option Nat
  | _, [] => some 0
  | [], _ :: _ => none
  | w :: ws, f :: fs => if f < 2 ^ w then (pack? ws fs).map (f * 2 ^ ws.sum + ·) else none

/-- The fields of a number put together give the number back, reduced to the widths. -/
theorem pack?_fields (ws : List Nat) (n : Nat) :
    pack? ws (fields ws n) = some (n % 2 ^ ws.sum) := by
  induction ws with
  | nil => simp [fields, pack?, Nat.mod_one]
  | cons w ws ih =>
    have hlt : n / 2 ^ ws.sum % 2 ^ w < 2 ^ w := Nat.mod_lt _ (Nat.two_pow_pos w)
    rw [fields, pack?, if_pos hlt, ih, Option.map_some, List.sum_cons, Nat.add_comm w, Nat.pow_add,
      Nat.mod_mul, Nat.mul_comm, Nat.add_comm]

/-- Zeros are put together to zero. -/
theorem pack?_zeros {ws : List Nat} {k : Nat} (h : k ≤ ws.length) :
    pack? ws (List.replicate k 0) = some 0 := by
  induction ws generalizing k with
  | nil =>
    rw [Nat.le_zero.1 h]
    rfl
  | cons w ws ih =>
    cases k with
    | zero => rfl
    | succ k =>
      rw [List.replicate_succ, pack?, if_pos (Nat.two_pow_pos w), ih (Nat.le_of_succ_le_succ h),
        Option.map_some, Nat.zero_mul]

/-- Zeros at the end make no difference, as long as there are fields for them. -/
theorem pack?_append_zeros {ws fs : List Nat} {k : Nat} (h : fs.length + k ≤ ws.length) :
    pack? ws (fs ++ List.replicate k 0) = pack? ws fs := by
  induction fs generalizing ws with
  | nil =>
    rw [List.length_nil, Nat.zero_add] at h
    rw [List.nil_append, pack?_zeros h, pack?]
  | cons f fs ih =>
    cases ws with
    | nil => simp at h
    | cons w ws =>
      have hrest : fs.length + k ≤ ws.length := by
        rw [List.length_cons, List.length_cons] at h
        omega
      rw [List.cons_append, pack?, pack?, ih hrest]

/-! ## Zeros at the end -/

theorem dropTrailingZeros_cons (n : Nat) (ns : List Nat) :
    dropTrailingZeros (n :: ns) =
      if n = 0 ∧ dropTrailingZeros ns = [] then [] else n :: dropTrailingZeros ns := by
  by_cases h : n = 0 ∧ dropTrailingZeros ns = []
  · rw [if_pos h, h.1]
    simp [dropTrailingZeros, h.2]
  · rw [if_neg h, dropTrailingZeros]
    intro hzero hnil
    exact h ⟨hzero, hnil⟩

/-- What is dropped from the end of a list are zeros. -/
theorem exists_append_zeros (ns : List Nat) :
    ∃ k, ns = dropTrailingZeros ns ++ List.replicate k 0 := by
  induction ns with
  | nil => exact ⟨0, rfl⟩
  | cons n ns ih =>
    obtain ⟨k, hk⟩ := ih
    rw [dropTrailingZeros_cons]
    split_ifs with h
    · refine ⟨k + 1, ?_⟩
      rw [h.2, List.nil_append] at hk
      rw [h.1, hk, List.nil_append, List.replicate_succ]
    · refine ⟨k, ?_⟩
      rw [List.cons_append, ← hk]

/-- What is left of a list does not end in a zero. -/
theorem getLast?_dropTrailingZeros (ns : List Nat) : (dropTrailingZeros ns).getLast? ≠ some 0 := by
  induction ns with
  | nil => exact (Option.some_ne_none 0).symm
  | cons n ns ih =>
    rw [dropTrailingZeros_cons]
    split_ifs with h
    · exact (Option.some_ne_none 0).symm
    · cases hrest : dropTrailingZeros ns with
      | nil =>
        rw [List.getLast?_singleton, ne_eq, Option.some.injEq]
        intro hzero
        exact h ⟨hzero, hrest⟩
      | cons m ms =>
        rw [hrest] at ih
        rwa [List.getLast?_cons_cons]

/-! ## The components of versions -/

theorem packedComponents_eq (v : UInt32) : packedComponents v = fields [16, 8, 8] v.toNat := by
  have hlt := v.toNat_lt
  have htop : v.toNat / 65536 < 65536 := by omega
  have hmask (n : Nat) : n &&& 255 = n % 256 := Nat.and_two_pow_sub_one_eq_mod n 8
  simp [packedComponents, fields, hmask, Nat.shiftRight_eq_div_pow, Nat.mod_eq_of_lt htop]

theorem sourceComponents_eq (v : UInt64) :
    sourceComponents v = fields [24, 10, 10, 10, 10] v.toNat := by
  have hlt := v.toNat_lt
  have htop : v.toNat / 1099511627776 < 16777216 := by omega
  have hmask (n : Nat) : n &&& 1023 = n % 1024 := Nat.and_two_pow_sub_one_eq_mod n 10
  simp [sourceComponents, fields, hmask, Nat.shiftRight_eq_div_pow, Nat.mod_eq_of_lt htop]

/-- The components that are not shown are zeros. -/
theorem exists_sourceComponents_eq (v : UInt64) :
    ∃ k, sourceComponents v = shownSourceComponents v ++ List.replicate k 0 := by
  obtain ⟨k, hk⟩ := exists_append_zeros ((sourceComponents v).drop 2)
  refine ⟨k, ?_⟩
  rw [shownSourceComponents, List.append_assoc, ← hk, List.take_append_drop]

/-- If more than two components are shown, the last of them is not zero. -/
theorem getLast?_shownSourceComponents (v : UInt64) :
    (shownSourceComponents v).length = 2 ∨ (shownSourceComponents v).getLast? ≠ some 0 := by
  rw [shownSourceComponents]
  cases hrest : dropTrailingZeros ((sourceComponents v).drop 2) with
  | nil => exact Or.inl rfl
  | cons n ns =>
    have hlast := getLast?_dropTrailingZeros ((sourceComponents v).drop 2)
    rw [hrest] at hlast
    right
    rw [List.getLast?_append]
    cases hget : (n :: ns).getLast? with
    | none => exact absurd (List.getLast?_eq_none_iff.1 hget) (List.cons_ne_nil n ns)
    | some last =>
      rw [hget] at hlast
      exact hlast

/-! ## Components as text -/

/-- The number that a decimal numeral stands for. -/
def decimal? (cs : List Char) : Option Nat :=
  if cs ≠ [] ∧ cs.all Char.isDigit then some (Nat.ofDigitChars 10 cs 0) else none

/-- The components between the dots of a text. -/
def components? (text : String) : Option (List Nat) := (text.toList.splitOn '.').mapM decimal?

theorem decimal?_toDigits (n : Nat) : decimal? (Nat.toDigits 10 n) = some n := by
  have hdigits : (Nat.toDigits 10 n).all Char.isDigit = true :=
    List.all_eq_true.2 fun c hc => Nat.isDigit_of_mem_toDigits (by decide) (by decide) hc
  rw [decimal?, if_pos ⟨Nat.toDigits_ne_nil, hdigits⟩,
    Nat.ofDigitChars_toDigits (by decide) (by decide)]

theorem toList_dotted (ns : List Nat) :
    (dotted ns).toList = ['.'].intercalate (ns.map (Nat.toDigits 10)) := by
  have hmap : (ns.map toString).map String.toList = ns.map (Nat.toDigits 10) := by
    rw [List.map_map]
    exact List.map_congr_left fun n _ => Nat.toList_repr
  rw [dotted, String.toList_intercalate, hmap]
  rfl

/-- Components with dots between them are read back. -/
theorem components?_dotted {ns : List Nat} (h : ns ≠ []) : components? (dotted ns) = some ns := by
  have hdots : ∀ numeral ∈ ns.map (Nat.toDigits 10), '.' ∉ numeral := by
    intro numeral hmem hdot
    obtain ⟨n, -, rfl⟩ := List.mem_map.1 hmem
    have hdigit := Nat.isDigit_of_mem_toDigits (by decide) (by decide) hdot
    exact absurd hdigit (by decide)
  have hread : decimal? ∘ Nat.toDigits 10 = fun n => pure n := funext decimal?_toDigits
  rw [components?, toList_dotted, List.splitOn_intercalate '.' hdots (by simpa using h),
    List.mapM_map, hread, List.mapM_pure, List.map_id']
  rfl

/-- A text shows a number that is packed into fields of some widths.  Its components are decimal
numerals with dots between them, at least `least` of them; they fit the fields, and the number is
packed from them with zero for the missing ones.  If there are more than `least`, the last one is not
zero. -/
def Shows (widths : List Nat) (least : Nat) (text : String) (n : Nat) : Prop :=
  ∃ fs, components? text = some fs ∧ least ≤ fs.length ∧ fs.length ≤ widths.length ∧
    (fs.length = least ∨ fs.getLast? ≠ some 0) ∧ pack? widths fs = some n

/-- A text shows no two numbers. -/
theorem Shows.eq {widths : List Nat} {least : Nat} {text : String} {n m : Nat}
    (hn : Shows widths least text n) (hm : Shows widths least text m) : n = m := by
  obtain ⟨fs, hfs, -, -, -, hpack⟩ := hn
  obtain ⟨gs, hgs, -, -, -, hpack'⟩ := hm
  rw [hfs, Option.some.injEq] at hgs
  rw [← hgs, hpack, Option.some.injEq] at hpack'
  exact hpack'

theorem shows_sourceVersionText (v : UInt64) :
    Shows [24, 10, 10, 10, 10] 2 (sourceVersionText v) v.toNat := by
  obtain ⟨k, hk⟩ := exists_sourceComponents_eq v
  have hlength : (shownSourceComponents v).length + k = 5 := by
    have := congrArg List.length hk
    rw [List.length_append, List.length_replicate] at this
    exact this.symm
  have hleast : 2 ≤ (shownSourceComponents v).length := by
    rw [shownSourceComponents, List.length_append]
    exact Nat.le_add_right 2 _
  have hne : shownSourceComponents v ≠ [] := by
    intro hnil
    rw [hnil] at hleast
    exact absurd hleast (by decide)
  have hpack : pack? [24, 10, 10, 10, 10] (shownSourceComponents v) = some v.toNat := by
    rw [← pack?_append_zeros (k := k) (Nat.le_of_eq hlength), ← hk, sourceComponents_eq,
      pack?_fields, Option.some.injEq]
    exact Nat.mod_eq_of_lt v.toNat_lt
  refine ⟨_, components?_dotted hne, hleast, ?_, getLast?_shownSourceComponents v, hpack⟩
  exact Nat.le_trans (Nat.le_add_right _ k) (Nat.le_of_eq hlength)

theorem shows_packedVersionText (v : UInt32) :
    Shows [16, 8, 8] 3 (packedVersionText v) v.toNat := by
  have hpack : pack? [16, 8, 8] (packedComponents v) = some v.toNat := by
    rw [packedComponents_eq, pack?_fields, Option.some.injEq]
    exact Nat.mod_eq_of_lt v.toNat_lt
  exact ⟨_, components?_dotted (List.cons_ne_nil _ _), Nat.le_refl _, Nat.le_refl _, Or.inl rfl,
    hpack⟩

/-! ## Identifiers -/

/-- The number that an upper-case hexadecimal digit stands for. -/
def hexValue? (c : Char) : Option Nat :=
  if '0' ≤ c ∧ c ≤ '9' then some (c.toNat - '0'.toNat)
  else if 'A' ≤ c ∧ c ≤ 'F' then some (c.toNat - 'A'.toNat + 10)
  else none

/-- The bytes that pairs of hexadecimal digits stand for. -/
def hexBytes? : List Char → Option (List UInt8)
  | [] => some []
  | [_] => none
  | high :: low :: cs => do
    let h ← hexValue? high
    let l ← hexValue? low
    let bs ← hexBytes? cs
    return UInt8.ofNat (16 * h + l) :: bs

theorem hexValue?_upperDigit : ∀ n < 16, hexValue? (Hex.upperDigit n) = some n := by decide

theorem upperDigit_ne_dash : ∀ n < 16, Hex.upperDigit n ≠ '-' := by decide

/-- Bytes are read back from their digits. -/
theorem hexBytes?_flatMap_upperByte (bs : List UInt8) :
    hexBytes? (bs.flatMap Hex.upperByte) = some bs := by
  induction bs with
  | nil => rfl
  | cons b bs ih =>
    have hb := b.toNat_lt
    have hhigh := hexValue?_upperDigit (b.toNat / 16) (by omega)
    have hlow := hexValue?_upperDigit (b.toNat % 16) (by omega)
    have hbyte : UInt8.ofNat (16 * (b.toNat / 16) + b.toNat % 16) = b := by
      rw [Nat.div_add_mod, UInt8.ofNat_toNat]
    rw [List.flatMap_cons, Hex.upperByte, List.cons_append, List.cons_append, List.nil_append,
      hexBytes?, hhigh, hlow, ih]
    simp only [Option.bind_eq_bind, Option.bind_some, Option.pure_def, hbyte]

theorem dash_notMem_flatMap_upperByte (bs : List UInt8) : '-' ∉ bs.flatMap Hex.upperByte := by
  rw [List.mem_flatMap]
  rintro ⟨b, -, hmem⟩
  have hb := b.toNat_lt
  rw [Hex.upperByte, List.mem_cons, List.mem_singleton] at hmem
  rcases hmem with h | h
  · exact upperDigit_ne_dash _ (by omega) h.symm
  · exact upperDigit_ne_dash _ (by omega) h.symm

theorem length_flatMap_upperByte (bs : List UInt8) :
    (bs.flatMap Hex.upperByte).length = 2 * bs.length := by
  induction bs with
  | nil => rfl
  | cons b bs ih =>
    rw [List.flatMap_cons, List.length_append, ih, List.length_cons]
    show 2 + 2 * bs.length = _
    omega

theorem flatten_uuidGroups (bs : List UInt8) : (uuidGroups bs).flatten = bs := by
  have hjoin (k m : Nat) : (bs.drop k).take m ++ bs.drop (k + m) = bs.drop k := by
    rw [← List.drop_drop, List.take_append_drop]
  simp only [uuidGroups, List.flatten_cons, List.flatten_nil, List.append_nil]
  rw [hjoin 8 2, hjoin 6 2, hjoin 4 2, List.take_append_drop]

/-- Lists that are joined are put one behind another if what stands between them is left out. -/
theorem filter_ne_intercalate {α : Type} [DecidableEq α] {x : α} {ls : List (List α)}
    (h : ∀ l ∈ ls, x ∉ l) : ([x].intercalate ls).filter (· ≠ x) = ls.flatten := by
  induction ls with
  | nil => rfl
  | cons l ls ih =>
    have hl : l.filter (· ≠ x) = l := List.filter_eq_self.2 fun a ha =>
      decide_eq_true fun hax => h l List.mem_cons_self (hax ▸ ha)
    have hrest := ih fun m hm => h m (List.mem_cons_of_mem _ hm)
    cases ls with
    | nil => rw [List.intercalate_singleton, hl, List.flatten_singleton]
    | cons l' ls =>
      rw [List.intercalate_cons_cons, List.filter_append, List.filter_append, hl, hrest,
        List.flatten_cons]
      simp

theorem toList_uuidText (bs : Vector UInt8 16) :
    (uuidText bs).toList =
      ['-'].intercalate ((uuidGroups bs.toList).map (List.flatMap Hex.upperByte)) := by
  have hgroup : String.toList ∘ (fun group => String.ofList (group.flatMap Hex.upperByte)) =
      List.flatMap Hex.upperByte := funext fun group => String.toList_ofList
  rw [uuidText, String.toList_intercalate, List.map_map, hgroup]
  rfl

theorem dash_notMem_uuidGroups (bs : List UInt8) :
    ∀ digits ∈ (uuidGroups bs).map (List.flatMap Hex.upperByte), '-' ∉ digits := by
  intro digits hmem
  obtain ⟨group, -, rfl⟩ := List.mem_map.1 hmem
  exact dash_notMem_flatMap_upperByte group

/-- The digits of an identifier without its dashes are those of its bytes. -/
theorem filter_uuidText (bs : Vector UInt8 16) :
    (uuidText bs).toList.filter (· ≠ '-') = bs.toList.flatMap Hex.upperByte := by
  have hjoin : ((uuidGroups bs.toList).map (List.flatMap Hex.upperByte)).flatten =
      (uuidGroups bs.toList).flatten.flatMap Hex.upperByte := by
    rw [← List.flatMap_def, ← List.flatMap_id, List.flatMap_assoc]
    rfl
  rw [toList_uuidText, filter_ne_intercalate (dash_notMem_uuidGroups bs.toList), hjoin,
    flatten_uuidGroups]

/-- There are 8, 4, 4, 4 and 12 digits between the dashes of an identifier. -/
theorem map_length_splitOn_uuidText (bs : Vector UInt8 16) :
    ((uuidText bs).toList.splitOn '-').map List.length = [8, 4, 4, 4, 12] := by
  have hdigits : List.length ∘ List.flatMap Hex.upperByte = (2 * ·) ∘ List.length :=
    funext length_flatMap_upperByte
  have hgroups : (uuidGroups bs.toList).map List.length = [4, 2, 2, 2, 6] := by
    simp [uuidGroups]
  rw [toList_uuidText, List.splitOn_intercalate '-' (dash_notMem_uuidGroups bs.toList)
    (List.cons_ne_nil _ _), List.map_map, hdigits, ← List.map_map, hgroups]
  rfl

/-- **Versions and identifiers are read back from their texts.**  A source version shows its five
fields, of which it leaves out zeros behind the second, so no two source versions have the same text;
a packed version shows all of its three fields.  The 32 digits of an identifier are those of its
bytes, with dashes after 8, 12, 16 and 20 of them. -/
theorem shown_read_back :
    (∀ v : UInt64, Shows [24, 10, 10, 10, 10] 2 (sourceVersionText v) v.toNat) ∧
      Function.Injective sourceVersionText ∧
      (∀ v : UInt32, Shows [16, 8, 8] 3 (packedVersionText v) v.toNat) ∧
      ∀ bs : Vector UInt8 16,
        ((uuidText bs).toList.splitOn '-').map List.length = [8, 4, 4, 4, 12] ∧
          hexBytes? ((uuidText bs).toList.filter (· ≠ '-')) = some bs.toList := by
  refine ⟨shows_sourceVersionText, fun v w heq => ?_, shows_packedVersionText, fun bs => ⟨?_, ?_⟩⟩
  · have hv := shows_sourceVersionText v
    rw [heq] at hv
    exact UInt64.toNat_inj.1 (hv.eq (shows_sourceVersionText w))
  · exact map_length_splitOn_uuidText bs
  · rw [filter_uuidText, hexBytes?_flatMap_upperByte]

-- a zero is left out only at the end
example : sourceVersionText 0x10000000800 = "1.0.0.2" := rfl

end MachImage

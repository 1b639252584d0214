import MachImage.Proofs.Reader

/-!
# Reading two images

A reader sees an image only through the bytes it takes and the size it runs
into.  So it reads two images alike if they have the same bytes wherever it
looks (`AgreeOn`) and the same size.  Where one image is only the beginning of
the other, that holds up to the failures which say that bytes are missing, and
those have to be excused.

`r.Agrees excused image other pos` says that a reader that starts at `pos` has
the same outcome on both images, with its cursor and its notes, unless it fails
on the first in a way that is excused.  There is one lemma for each way of
making a reader, so that the agreement of a composed reader is put together
along its definition: `agrees_bind` for two readers in sequence, `agrees_take`
for a read of some bytes and `agrees_times` for a table.
-/

namespace MachImage

/-! ## Bytes in common -/

/-- Two images have the same bytes in a range, as far as the first one reaches. -/
def AgreeOn (image other : ByteArray) (pos n : Nat) : Prop :=
  ∀ i, pos ≤ i → i < pos + n → i < image.size → image.data[i]? = other.data[i]?

instance (image other : ByteArray) (pos n : Nat) : Decidable (AgreeOn image other pos n) :=
  decidable_of_iff
    (∀ i < n, pos + i < image.size → image.data[pos + i]? = other.data[pos + i]?) <| by
    constructor
    · intro h i hle hlt hsize
      have hsum : pos + (i - pos) = i := by omega
      have hbyte := h (i - pos) (by omega)
      rw [hsum] at hbyte
      exact hbyte hsize
    · intro h i hlt hsize
      exact h (pos + i) (by omega) (by omega) hsize

/-- What the sizes of two images have to be for their readings to be compared: the second is no
shorter than the first, and where it is longer the failures for want of bytes are excused. -/
structure Comparable (excused : Error → Prop) (image other : ByteArray) : Prop where
  size_le : image.size ≤ other.size
  excuses : image.size ≠ other.size → ∀ needed available, excused (.bufferTooSmall needed available)

namespace AgreeOn

variable {image other : ByteArray} {pos n : Nat}

/-- Images that agree on a range agree on every range inside it. -/
theorem mono (h : AgreeOn image other pos n) {p k : Nat} (hstart : pos ≤ p)
    (hstop : p + k ≤ pos + n) : AgreeOn image other p k := by
  intro i hle hlt hsize
  exact h i (by omega) (by omega) hsize

/-- An image agrees everywhere with what it is the beginning of. -/
theorem append (image more : ByteArray) (pos n : Nat) : AgreeOn image (image ++ more) pos n := by
  intro i _ _ hsize
  rw [ByteArray.data_append, Array.getElem?_append_left hsize]

/-- What lies in a range inside the first image is the same in both. -/
theorem window_eq (h : AgreeOn image other pos n) (hle : pos + n ≤ image.size) :
    window image pos n = window other pos n := by
  rw [MachImage.window_eq, MachImage.window_eq]
  apply List.ext_getElem?
  intro i
  rw [List.getElem?_take, List.getElem?_take]
  by_cases hi : i < n
  · rw [if_pos hi, if_pos hi, List.getElem?_drop, List.getElem?_drop, Array.getElem?_toList,
      Array.getElem?_toList]
    exact h (pos + i) (by omega) (by omega) (by omega)
  · rw [if_neg hi, if_neg hi]

theorem extract_eq (h : AgreeOn image other pos n) (hle : pos + n ≤ image.size) :
    image.extract pos (pos + n) = other.extract pos (pos + n) := by
  have hwindow := h.window_eq hle
  unfold window at hwindow
  exact ByteArray.ext (Array.toList_inj.1 hwindow)

theorem word_eq (h : AgreeOn image other pos 4) (hle : pos + 4 ≤ image.size) :
    word image pos = word other pos := by
  rw [word, word, h.window_eq hle]

end AgreeOn

/-! ## Readers -/

namespace Reader

variable {α β : Type} {excused : Error → Prop} {image other : ByteArray} {pos : Nat}

/-- A reader has the same outcome on two images, unless it fails on the first in a way that is
excused. -/
def Agrees (excused : Error → Prop) (image other : ByteArray) (r : Reader α) (pos : Nat) : Prop :=
  r image pos = r other pos ∨ ∃ e, (r image pos).result = .error e ∧ excused e

/-- Where nothing is excused the outcomes are the same. -/
theorem Agrees.eq {r : Reader α} (h : r.Agrees (fun _ => False) image other pos) :
    r image pos = r other pos := by
  rcases h with heq | ⟨e, -, hexcused⟩
  · exact heq
  · exact hexcused.elim

/-- A reader that does not look at the image agrees on all images. -/
theorem agrees_of_forall_eq {r : Reader α} (h : ∀ a b, r a pos = r b pos) :
    r.Agrees excused image other pos :=
  Or.inl (h image other)

@[simp] theorem agrees_pure (a : α) : (Pure.pure a : Reader α).Agrees excused image other pos :=
  agrees_of_forall_eq fun _ _ => rfl

@[simp] theorem agrees_fail (e : Error) : (fail e : Reader α).Agrees excused image other pos :=
  agrees_of_forall_eq fun _ _ => rfl

@[simp] theorem agrees_note (n : Note) : (note n).Agrees excused image other pos :=
  agrees_of_forall_eq fun _ _ => rfl

@[simp] theorem agrees_position : position.Agrees excused image other pos :=
  agrees_of_forall_eq fun _ _ => rfl

@[simp] theorem agrees_report (result : Except Error α) (notes : List Note) :
    (report result notes).Agrees excused image other pos :=
  agrees_of_forall_eq fun _ _ => rfl

@[simp] theorem agrees_demand (o : Option α) (e : Error) :
    (demand o e).Agrees excused image other pos := by
  cases o with
  | none => exact agrees_fail e
  | some a => exact agrees_pure a

/-- Two readers in sequence agree if the first does and the second does wherever the first can lead
to. -/
theorem agrees_bind {r : Reader α} {f : α → Reader β} (hr : r.Agrees excused image other pos)
    (hf : ∀ a cursor, r.Yields image pos a cursor → (f a).Agrees excused image other cursor) :
    (r >>= f).Agrees excused image other pos := by
  rcases hr with heq | ⟨e, he, hexcused⟩
  · rcases houtcome : r image pos with ⟨e | a, cursor, notes⟩
    · left
      rw [bind_of_error houtcome, bind_of_error (heq ▸ houtcome)]
    · have hyields : r.Yields image pos a cursor := by
        rw [Yields, houtcome]
        exact ⟨rfl, rfl⟩
      rcases hf a cursor hyields with hnext | ⟨e, he, hexcused⟩
      · left
        rw [bind_of_ok houtcome, bind_of_ok (heq ▸ houtcome), hnext]
      · right
        refine ⟨e, ?_, hexcused⟩
        rw [bind_of_ok houtcome]
        exact he
  · right
    rcases houtcome : r image pos with ⟨_ | a, cursor, notes⟩
    · rw [houtcome] at he
      cases he
      refine ⟨e, ?_, hexcused⟩
      rw [bind_of_error houtcome]
    · rw [houtcome] at he
      cases he

/-- What is computed from the value of a reader. -/
theorem agrees_map {r : Reader α} {f : α → β} (hr : r.Agrees excused image other pos) :
    (r >>= fun a => Pure.pure (f a)).Agrees excused image other pos :=
  agrees_bind hr fun a _ _ => agrees_pure (f a)

/-- A reader that runs unless a check fails. -/
theorem agrees_unless {c : Prop} [Decidable c] {e : Error} {r : Reader α}
    (hr : ¬ c → r.Agrees excused image other pos) :
    (if c then fail e else r).Agrees excused image other pos := by
  by_cases hc : c
  · rw [if_pos hc]
    exact agrees_fail e
  · rw [if_neg hc]
    exact hr hc

/-- A read elsewhere agrees if what is read there does. -/
theorem agrees_within {r : Reader α} (hr : r.Agrees excused image other pos) :
    (within r).Agrees excused image other pos := by
  unfold within
  rcases hr with heq | hfails
  · left
    show { r image pos with cursor := pos } = { r other pos with cursor := pos }
    rw [heq]
  · exact Or.inr hfails

/-! ## Reads -/

theorem agrees_seek (hsize : Comparable excused image other) (target : Nat) :
    (seek target).Agrees excused image other pos := by
  unfold Agrees seek
  by_cases hshort : image.size < target
  · rw [if_pos hshort]
    by_cases hne : image.size = other.size
    · left
      rw [if_pos (hne ▸ hshort), hne]
    · exact Or.inr ⟨_, rfl, hsize.excuses hne _ _⟩
  · have hle := hsize.size_le
    left
    rw [if_neg hshort, if_neg (by omega)]

theorem agrees_seek_bind (hsize : Comparable excused image other) {target : Nat}
    {f : Unit → Reader β} (hf : (f ()).Agrees excused image other target) :
    (seek target >>= f).Agrees excused image other pos := by
  refine agrees_bind (agrees_seek hsize target) fun a cursor h => ?_
  obtain ⟨-, rfl⟩ := yields_seek.1 h
  exact hf

/-- A read of some bytes agrees if these bytes, when they are inside the first image, look the same
in both. -/
theorem agrees_take (hsize : Comparable excused image other) {n : Nat}
    {view : ByteArray → Nat → α}
    (hview : pos + n ≤ image.size → view image pos = view other pos) :
    (take n view).Agrees excused image other pos := by
  unfold Agrees take
  by_cases hshort : image.size < pos + n
  · rw [if_pos hshort]
    by_cases hne : image.size = other.size
    · left
      rw [if_pos (hne ▸ hshort), hne]
    · exact Or.inr ⟨_, rfl, hsize.excuses hne _ _⟩
  · have hle := hsize.size_le
    left
    rw [if_neg hshort, if_neg (by omega), hview (by omega)]

theorem agrees_bytes (hsize : Comparable excused image other) {n : Nat}
    (h : AgreeOn image other pos n) : (bytes n).Agrees excused image other pos :=
  agrees_take hsize fun hle => h.window_eq hle

theorem agrees_slice (hsize : Comparable excused image other) {n : Nat}
    (h : AgreeOn image other pos n) : (slice n).Agrees excused image other pos :=
  agrees_take hsize fun hle => h.extract_eq hle

theorem agrees_words (hsize : Comparable excused image other) {n : Nat}
    (h : AgreeOn image other pos (4 * n)) : (words n).Agrees excused image other pos :=
  agrees_map (agrees_bytes hsize h)

theorem agrees_fixedName (hsize : Comparable excused image other) {n : Nat}
    (h : AgreeOn image other pos n) : (fixedName n).Agrees excused image other pos :=
  agrees_map (agrees_bytes hsize h)

theorem agrees_record (hsize : Comparable excused image other) {r : Record}
    (h : AgreeOn image other pos r.size) : (record r).Agrees excused image other pos :=
  agrees_map (agrees_bytes hsize h)

/-- A table whose entries each take `k` bytes agrees if the reads of its entries do. -/
theorem agrees_times {r : Reader α} {k n : Nat}
    (hmoves : ∀ {p a c}, r.Yields image p a c → c = p + k)
    (hr : ∀ i < n, r.Agrees excused image other (pos + k * i)) :
    (times n r).Agrees excused image other pos := by
  induction n generalizing pos with
  | zero => exact agrees_pure []
  | succ n ih =>
    have hfirst := hr 0 (Nat.zero_lt_succ n)
    rw [Nat.mul_zero, Nat.add_zero] at hfirst
    refine agrees_bind hfirst fun a cursor hyields => agrees_map ?_
    rw [hmoves hyields]
    refine ih fun i hi => ?_
    have hnext := hr (i + 1) (Nat.succ_lt_succ hi)
    rwa [Nat.mul_succ, Nat.add_comm (k * i), ← Nat.add_assoc] at hnext

end Reader

end MachImage

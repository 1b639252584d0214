import MachImage.Proofs.Image.Names

/-!
# The parts of an image

The parts of an image are its segments and its symbols by name.  The symbols are
taken out of slots, one for each place of the table, and a slot can be emptied
only once.  No symbol is missed, because two names never share a place
(`Image.eq_of_place_eq`): a symbol has one name.

* Names with places of their own never find a slot that another one has emptied
  (`Image.takeNamed_eq_filterMap`).
* So the names can be taken in any order, and each gets the symbol that it stands
  for (`Image.partsComplete_of_parse`).
-/

namespace MachImage.Image

variable {options : Options} {image : ByteArray} {img : Image}

/-! ## Slots -/

/-- **Names with places of their own take what is in the slots at their places**, as if no slot was
ever emptied. -/
theorem takeNamed_eq_filterMap {slots : Array (Option Symbol)} {order : List (String × Nat)}
    (hdistinct : (order.map Prod.snd).Nodup) :
    takeNamed slots order =
      order.filterMap fun (name, place) => slots[place]?.join.map fun s => (name, s) := by
  induction order generalizing slots with
  | nil => rfl
  | cons p order ih =>
    obtain ⟨name, place⟩ := p
    rw [List.map_cons, List.nodup_cons] at hdistinct
    obtain ⟨(hplace : place ∉ order.map Prod.snd), hrest⟩ := hdistinct
    cases hs : slots[place]?.join with
    | none => simp [takeNamed, hs, ih hrest]
    | some s =>
      have hstep : takeNamed slots ((name, place) :: order) =
          (name, s) :: takeNamed (slots.setIfInBounds place none) order := by
        simp [takeNamed, hs]
      -- the slot that is emptied is not that of a name behind
      have hother : ∀ q ∈ order, (slots.setIfInBounds place none)[q.2]? = slots[q.2]? := by
        intro q hq
        refine Array.getElem?_setIfInBounds_ne ?_
        intro heq
        apply hplace
        rw [heq]
        exact List.mem_map_of_mem hq
      rw [hstep, ih hrest, List.filterMap_cons_some (b := (name, s)) (by simp [hs])]
      congr 1
      refine List.filterMap_congr ?_
      intro q hq
      dsimp only
      rw [hother q hq]

/-- If there is a symbol at each place, none is left out. -/
theorem forall₂_filterMap {symbols : Array Symbol} {order : List (String × Nat)}
    (h : ∀ p ∈ order, ∃ s, symbols[p.2]? = some s) :
    List.Forall₂ (fun p q => q.1 = p.1 ∧ symbols[p.2]? = some q.2) order
      (order.filterMap fun (name, place) => symbols[place]?.map fun s => (name, s)) := by
  induction order with
  | nil => exact .nil
  | cons p order ih =>
    obtain ⟨name, place⟩ := p
    rw [List.forall_mem_cons] at h
    obtain ⟨⟨s, hs⟩, hrest⟩ := h
    rw [List.filterMap_cons_some (b := (name, s)) (by simp [hs])]
    exact .cons ⟨rfl, hs⟩ (ih hrest)

/-! ## Names and places -/

/-- Two names never have the same place. -/
theorem eq_of_place_eq (h : parse image options = .ok img) {name name' : String} {place : Nat}
    (hname : img.names[name]? = some place) (hname' : img.names[name']? = some place) :
    name = name' := by
  obtain ⟨-, s, hs, ⟨-, rfl⟩, -⟩ := (getElem?_names_eq_some_iff h).1 hname
  obtain ⟨-, t, ht, ⟨-, rfl⟩, -⟩ := (getElem?_names_eq_some_iff h).1 hname'
  rw [hs, Option.some.injEq] at ht
  rw [ht]

/-- The places of the names, in whatever order, are different from each other. -/
theorem nodup_places (h : parse image options = .ok img) {order : List (String × Nat)}
    (horder : order.Perm img.names.toList) : (order.map Prod.snd).Nodup := by
  have hnames : img.names.toList.Nodup := by
    apply List.Nodup.of_map Prod.fst
    rw [Std.TreeMap.map_fst_toList_eq_keys]
    exact Std.TreeMap.nodup_keys
  rw [(horder.map Prod.snd).nodup_iff]
  refine hnames.map_on ?_
  rintro ⟨name, place⟩ hmem ⟨name', place'⟩ hmem' hplace
  obtain rfl : place = place' := hplace
  rw [eq_of_place_eq h (Std.TreeMap.mem_toList_iff_getElem?_eq_some.1 hmem)
    (Std.TreeMap.mem_toList_iff_getElem?_eq_some.1 hmem')]

/-- What is taken is what is looked up at the places. -/
theorem takeNamed_eq (h : parse image options = .ok img) {order : List (String × Nat)}
    (horder : order.Perm img.names.toList) :
    takeNamed (img.symbols.map some) order =
      order.filterMap fun (name, place) => img.symbols[place]?.map fun s => (name, s) := by
  have hslot : ∀ place : Nat, (img.symbols.map some)[place]?.join = img.symbols[place]? := by
    intro place
    cases h : img.symbols[place]? <;> simp [h]
  simp only [takeNamed_eq_filterMap (nodup_places h horder), hslot]

/-- Each name takes the symbol at its place, whatever was taken before. -/
theorem forall₂_takeNamed (h : parse image options = .ok img) {order : List (String × Nat)}
    (horder : order.Perm img.names.toList) :
    List.Forall₂ (fun p q => q.1 = p.1 ∧ img.symbols[p.2]? = some q.2) order
      (takeNamed (img.symbols.map some) order) := by
  rw [takeNamed_eq h horder]
  apply forall₂_filterMap
  rintro ⟨name, place⟩ hp
  obtain ⟨-, s, hs, -⟩ := (getElem?_names_eq_some_iff h).1
    (Std.TreeMap.mem_toList_iff_getElem?_eq_some.1 (horder.mem_iff.1 hp))
  exact ⟨s, by rw [← Array.getElem?_toList, hs]⟩

/-- What is taken is the exposed names with their symbols, in an order of its own. -/
theorem perm_takeNamed (h : parse image options = .ok img) {order : List (String × Nat)}
    (horder : order.Perm img.names.toList) :
    (takeNamed (img.symbols.map some) order).Perm img.namedSymbols := by
  rw [takeNamed_eq h horder]
  exact horder.filterMap _

/-! ## The parts -/

/-- A map made of a list of different names has exactly their values. -/
theorem getElem?_ofList_eq_some_iff {l : List (String × Symbol)} (h : (l.map Prod.fst).Nodup)
    {name : String} {s : Symbol} :
    (Std.TreeMap.ofList l)[name]? = some s ↔ (name, s) ∈ l := by
  have hdistinct : l.Pairwise fun a b => ¬ compare a.1 b.1 = .eq := by
    refine (List.pairwise_map.1 h).imp ?_
    intro a b hne heq
    exact hne (Std.LawfulEqCmp.eq_of_compare heq)
  have hmem : ∀ {t : Symbol}, (name, t) ∈ l → (Std.TreeMap.ofList l)[name]? = some t := by
    intro t ht
    exact Std.TreeMap.getElem?_ofList_of_mem Std.ReflCmp.compare_self hdistinct ht
  constructor
  · intro hs
    by_cases hname : name ∈ l.map Prod.fst
    · obtain ⟨⟨_, t⟩, ht, rfl⟩ := List.mem_map.1 hname
      rw [hmem ht, Option.some.injEq] at hs
      exact hs ▸ ht
    · rw [Std.TreeMap.getElem?_ofList_of_contains_eq_false (by simpa using hname)] at hs
      cases hs
  · exact hmem

/-- A name has the symbol in the parts that it has in the image. -/
theorem getElem?_partsIn (h : parse image options = .ok img) {order : List (String × Nat)}
    (horder : order.Perm img.names.toList) (name : String) :
    (img.partsIn order).2[name]? = img.symbol? name := by
  have hperm := perm_takeNamed h horder
  have hnodup : ((takeNamed (img.symbols.map some) order).map Prod.fst).Nodup := by
    rw [(hperm.map Prod.fst).nodup_iff, map_fst_namedSymbols h]
    exact Std.TreeMap.nodup_keys
  ext s
  rw [partsIn, getElem?_ofList_eq_some_iff hnodup, hperm.mem_iff]
  exact mem_namedSymbols_iff

/-- In the order of the names the parts are the segments and the named symbols. -/
theorem parts_eq (h : parse image options = .ok img) :
    img.parts = (img.segments, Std.TreeMap.ofList img.namedSymbols) := by
  rw [parts, partsIn, takeNamed_eq h (List.Perm.refl _)]
  rfl

/-- The parts of an image lack nothing if the names are taken in a given order. -/
structure PartsComplete (img : Image) (order : List (String × Nat)) : Prop where
  /-- The segments are those of the image. -/
  segments_eq : (img.partsIn order).1 = img.segments
  /-- No name is left out: each takes the symbol at its place. -/
  taken : List.Forall₂ (fun p q => q.1 = p.1 ∧ img.symbols[p.2]? = some q.2) order
    (takeNamed (img.symbols.map some) order)
  /-- Each name has the symbol that it stood for, and there are no others. -/
  getElem?_eq : ∀ name : String, (img.partsIn order).2[name]? = img.symbol? name
  /-- So the symbols by name are listed as those of the image are. -/
  toList_eq : (img.partsIn order).2.toList = img.namedSymbols

/-- **Taking an image apart loses nothing**, in whatever order the names are taken.  Every name has
a place of its own, so that no slot is empty when its name comes. -/
theorem partsComplete_of_parse (h : parse image options = .ok img) :
    (∀ (name name' : String) (place : Nat), img.names[name]? = some place →
      img.names[name']? = some place → name = name') ∧
    ∀ order : List (String × Nat), order.Perm img.names.toList → PartsComplete img order := by
  refine ⟨fun name name' place => eq_of_place_eq h, fun order horder => ?_⟩
  exact {
    segments_eq := rfl
    taken := forall₂_takeNamed h horder
    getElem?_eq := getElem?_partsIn h horder
    toList_eq := toList_eq_namedSymbols (getElem?_partsIn h horder) }

theorem sharedNames_partsComplete :
    ∃ img, parse sharedNames = .ok img ∧ PartsComplete img img.names.toList.reverse ∧
      (img.partsIn img.names.toList.reverse).2["a"]? = img.symbols[2]? := by
  obtain ⟨img, s, himg, hlast, -⟩ := sharedNames_lastAt
  have hcomplete := (partsComplete_of_parse himg).2 _ (List.reverse_perm img.names.toList)
  have ha := (symbol?_eq_some_iff himg).2 ⟨by decide, 2, hlast⟩
  refine ⟨img, himg, hcomplete, ?_⟩
  rw [hcomplete.getElem?_eq, ha, ← Array.getElem?_toList, hlast.1]

end MachImage.Image

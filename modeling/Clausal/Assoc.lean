/-!
# Finite maps

A finite map as the list of its entries, the key that was first bound last at
the front, where it is found soonest. Only look-ups (`Assoc.find?`) are
observed by the passes, and a look-up finds the entry made last for its key
(`find?_insert`), so the order of the entries matters to nothing but their
listing.

* `find?_insert`: inserting binds its key and leaves the others alone;
* `find?_insertIfNew`: a key that is bound already keeps its value;
* `find?_shadowMany`: new entries in front of the others are found first.
-/

namespace Clausal

/-- A finite map from `κ` to `ν`. -/
structure Assoc (κ ν : Type) where
  /-- The entries, newest key first. -/
  entries : List (κ × ν) := []
deriving DecidableEq, Inhabited

namespace Assoc

variable {κ ν : Type} [DecidableEq κ]

instance : EmptyCollection (Assoc κ ν) := ⟨⟨[]⟩⟩

/-- The value of the first entry for `k`. -/
def firstValue (k : κ) : List (κ × ν) → Option ν
  | [] => none
  | e :: es => if e.1 = k then some e.2 else firstValue k es

/-- The value of a key. -/
def find? (m : Assoc κ ν) (k : κ) : Option ν := firstValue k m.entries

/-- Whether a key is bound. -/
def contains (m : Assoc κ ν) (k : κ) : Bool := (m.find? k).isSome

/-- The entries with the value `v` in the first entry for `k`. -/
def replaceEntry (k : κ) (v : ν) : List (κ × ν) → List (κ × ν)
  | [] => []
  | e :: es => if e.1 = k then (k, v) :: es else e :: replaceEntry k v es

/-- The entries after binding `k` to `v`: in the place of the old entry for
    `k`, or at the front. -/
def insertEntry (k : κ) (v : ν) (es : List (κ × ν)) : List (κ × ν) :=
  if (firstValue k es).isSome then replaceEntry k v es else (k, v) :: es

/-- Binds a key, replacing its value if it had one. -/
def insert (m : Assoc κ ν) (k : κ) (v : ν) : Assoc κ ν := ⟨insertEntry k v m.entries⟩

/-- Binds a key that has no value yet. -/
def insertIfNew (m : Assoc κ ν) (k : κ) (v : ν) : Assoc κ ν :=
  if m.contains k then m else m.insert k v

/-- Binds every key of a list of pairs, later pairs replacing earlier ones. -/
def insertMany (m : Assoc κ ν) (es : List (κ × ν)) : Assoc κ ν :=
  es.foldl (fun m e => m.insert e.1 e.2) m

/-- Binds every key of a list of pairs without looking for older entries, which
    stay behind the new ones. -/
def shadowMany (m : Assoc κ ν) (es : List (κ × ν)) : Assoc κ ν :=
  ⟨es.reverse ++ m.entries⟩

/-- The map of a list of pairs, later pairs replacing earlier ones. -/
def ofList (es : List (κ × ν)) : Assoc κ ν := (∅ : Assoc κ ν).insertMany es

/-- The entries, oldest key first. -/
def toList (m : Assoc κ ν) : List (κ × ν) := m.entries.reverse

/-- The values, oldest key first. -/
def values (m : Assoc κ ν) : List ν := m.toList.map Prod.snd

@[simp] theorem find?_empty (k : κ) : (∅ : Assoc κ ν).find? k = none := rfl

theorem firstValue_replaceEntry (k k' : κ) (v : ν) (es : List (κ × ν)) :
    firstValue k' (replaceEntry k v es) =
      if k' = k then (firstValue k es).map fun _ => v else firstValue k' es := by
  induction es with
  | nil => simp [replaceEntry, firstValue]
  | cons e es ih =>
    by_cases he : e.1 = k
    · by_cases h : k' = k
      · simp [replaceEntry, firstValue, he, h]
      · simp [replaceEntry, firstValue, he, h, Ne.symm h]
    · by_cases h : e.1 = k'
      · have hk : k' ≠ k := fun hk => he (h.trans hk)
        simp [replaceEntry, firstValue, h, hk]
      · simp [replaceEntry, firstValue, he, h, ih]

theorem firstValue_insertEntry (k k' : κ) (v : ν) (es : List (κ × ν)) :
    firstValue k' (insertEntry k v es) = if k' = k then some v else firstValue k' es := by
  unfold insertEntry
  split
  · next h =>
    obtain ⟨w, hw⟩ := Option.isSome_iff_exists.1 h
    simp [firstValue_replaceEntry, hw]
  · simp [firstValue, eq_comm]

theorem find?_insert (m : Assoc κ ν) (k k' : κ) (v : ν) :
    (m.insert k v).find? k' = if k' = k then some v else m.find? k' :=
  firstValue_insertEntry k k' v m.entries

@[simp] theorem find?_insert_self (m : Assoc κ ν) (k : κ) (v : ν) :
    (m.insert k v).find? k = some v := by
  simp [find?_insert]

theorem find?_insertIfNew (m : Assoc κ ν) (k k' : κ) (v : ν) :
    (m.insertIfNew k v).find? k' =
      if k' = k then some ((m.find? k).getD v) else m.find? k' := by
  unfold insertIfNew contains
  split
  · next h =>
    obtain ⟨w, hw⟩ := Option.isSome_iff_exists.1 h
    by_cases hk : k' = k <;> simp [hk, hw]
  · next h =>
    have hn : m.find? k = none := by simpa using h
    simp [find?_insert, hn]

/-- A key that is bound was bound before, or is the one that is added. -/
theorem of_find?_insertIfNew {m : Assoc κ ν} {k k' : κ} {v w : ν}
    (h : (m.insertIfNew k v).find? k' = some w) : m.find? k' = some w ∨ k' = k ∧ w = v := by
  rw [find?_insertIfNew] at h
  split at h
  · next hk =>
    cases hm : m.find? k with
    | none => rw [hm] at h; exact .inr ⟨hk, (Option.some.inj h).symm⟩
    | some u => rw [hm] at h; exact .inl (by rw [hk, hm]; exact h)
  · exact .inl h

/-- What is bound stays bound. -/
theorem find?_insertIfNew_of_some {m : Assoc κ ν} {k k' : κ} {v w : ν}
    (h : m.find? k' = some w) : (m.insertIfNew k v).find? k' = some w := by
  rw [find?_insertIfNew]
  split
  · next hk => rw [← hk, h, Option.getD_some]
  · exact h

theorem firstValue_append (k : κ) (es es' : List (κ × ν)) :
    firstValue k (es ++ es') = (firstValue k es).or (firstValue k es') := by
  induction es with
  | nil => simp [firstValue]
  | cons e es ih => by_cases he : e.1 = k <;> simp [firstValue, he, ih]

theorem find?_shadowMany (m : Assoc κ ν) (es : List (κ × ν)) (k : κ) :
    (m.shadowMany es).find? k = (firstValue k es.reverse).or (m.find? k) :=
  firstValue_append k es.reverse m.entries

/-- The pair that is listed last binds its key. -/
theorem find?_insertMany (m : Assoc κ ν) (es : List (κ × ν)) (k : κ) :
    (m.insertMany es).find? k = (firstValue k es.reverse).or (m.find? k) := by
  induction es generalizing m with
  | nil => rfl
  | cons e es ih =>
    show ((m.insert e.1 e.2).insertMany es).find? k = _
    rw [ih, List.reverse_cons, firstValue_append, find?_insert, Option.or_assoc]
    by_cases h : e.1 = k
    · simp [firstValue, h]
    · simp [firstValue, h, Ne.symm h]

theorem find?_ofList (es : List (κ × ν)) (k : κ) :
    (ofList es).find? k = firstValue k es.reverse := by
  rw [ofList, find?_insertMany, find?_empty, Option.or_none]

theorem mem_of_firstValue {k : κ} {v : ν} {es : List (κ × ν)} (h : firstValue k es = some v) :
    (k, v) ∈ es := by
  induction es with
  | nil => cases h
  | cons e es ih =>
    by_cases he : e.1 = k
    · simp only [firstValue, he, if_true, Option.some.injEq] at h
      simp [← he, ← h]
    · simp only [firstValue, he, if_false] at h
      exact List.mem_cons_of_mem _ (ih h)

theorem firstValue_isSome {k : κ} {es : List (κ × ν)} :
    (firstValue k es).isSome ↔ k ∈ es.map Prod.fst := by
  induction es with
  | nil => simp [firstValue]
  | cons e es ih =>
    by_cases he : e.1 = k
    · simp [firstValue, he]
    · rw [firstValue, if_neg he, ih, List.map_cons, List.mem_cons]
      exact ⟨.inr, fun h => h.resolve_left (Ne.symm he)⟩

end Assoc

end Clausal

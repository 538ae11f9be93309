import Mathlib.Data.List.Nodup
import SourcePress.Json.Value

/-!
# The members of objects

An object is made by setting its members one by one. So no key is there twice, every value is one
that was written, and members with different keys are all kept in their order.
-/

namespace SourcePress.Json

/-- The keys of members. -/
abbrev keys (members : List (Text × Json)) : List Text := members.map Prod.fst

/-- A new key goes last. -/
theorem setMember_of_not_mem {members : List (Text × Json)} {key : Text}
    (h : key ∉ keys members) (value : Json) :
    setMember members key value = members ++ [(key, value)] := by
  induction members with
  | nil => rfl
  | cons m members ih =>
    have hne : m.1 ≠ key := fun heq => h (heq ▸ List.mem_cons_self)
    have hrest : key ∉ keys members := fun hmem => h (List.mem_cons_of_mem _ hmem)
    rw [setMember, if_neg hne, ih hrest]
    rfl

/-- A known key leaves the keys as they are. -/
theorem keys_setMember_of_mem {members : List (Text × Json)} {key : Text}
    (h : key ∈ keys members) (value : Json) :
    keys (setMember members key value) = keys members := by
  induction members with
  | nil => cases h
  | cons m members ih =>
    by_cases heq : m.1 = key
    · rw [setMember, if_pos heq]
      simp [keys, heq]
    · have hrest : key ∈ keys members := by
        rcases List.mem_cons.mp h with hm | hm
        · exact absurd hm.symm heq
        · exact hm
      rw [setMember, if_neg heq]
      simp only [keys, List.map_cons]
      rw [show List.map Prod.fst (setMember members key value) = _ from ih hrest]

/-- Setting a member keeps the keys apart. -/
theorem nodup_keys_setMember {members : List (Text × Json)} (h : (keys members).Nodup)
    (key : Text) (value : Json) : (keys (setMember members key value)).Nodup := by
  by_cases hmem : key ∈ keys members
  · rw [keys_setMember_of_mem hmem]
    exact h
  · rw [setMember_of_not_mem hmem, keys, List.map_append]
    refine List.nodup_append'.mpr ⟨h, List.nodup_singleton _, ?_⟩
    simpa using hmem

/-- A member that is there after one was set was there before or has the value that was set. -/
theorem mem_setMember {members : List (Text × Json)} {key : Text} {value : Json}
    {m : Text × Json} (h : m ∈ setMember members key value) : m ∈ members ∨ m.2 = value := by
  induction members with
  | nil =>
    rw [setMember, List.mem_singleton] at h
    exact .inr (by rw [h])
  | cons m' members ih =>
    rw [setMember] at h
    split at h
    · rcases List.mem_cons.mp h with rfl | hm
      · exact .inr rfl
      · exact .inl (List.mem_cons_of_mem _ hm)
    · rcases List.mem_cons.mp h with rfl | hm
      · exact .inl List.mem_cons_self
      · rcases ih hm with hm | hm
        · exact .inl (List.mem_cons_of_mem _ hm)
        · exact .inr hm

/-- No object that is read has a key twice. -/
theorem nodup_keys_ofPairs (pairs : List (Text × Json)) : (keys (ofPairs pairs)).Nodup := by
  suffices h : ∀ members, (keys members).Nodup → (keys (pairs.foldl
      (fun members pair => setMember members pair.1 pair.2) members)).Nodup from
    h [] List.nodup_nil
  induction pairs with
  | nil => exact fun _ h => h
  | cons pair pairs ih => exact fun members h => ih _ (nodup_keys_setMember h pair.1 pair.2)

/-- The values of an object are among those that were written. -/
theorem mem_ofPairs {pairs : List (Text × Json)} {m : Text × Json} (h : m ∈ ofPairs pairs) :
    ∃ pair ∈ pairs, pair.2 = m.2 := by
  suffices hfold : ∀ members, m ∈ pairs.foldl
      (fun members pair => setMember members pair.1 pair.2) members →
      m ∈ members ∨ ∃ pair ∈ pairs, pair.2 = m.2 by
    rcases hfold [] h with hm | hm
    · cases hm
    · exact hm
  clear h
  induction pairs with
  | nil => exact fun _ h => .inl h
  | cons pair pairs ih =>
    intro members h
    rcases ih _ h with hm | ⟨pair', hpair', heq⟩
    · rcases mem_setMember hm with hm | hm
      · exact .inl hm
      · exact .inr ⟨pair, List.mem_cons_self, hm.symm⟩
    · exact .inr ⟨pair', List.mem_cons_of_mem _ hpair', heq⟩

/-- Members with different keys are those of the object that they are written for. -/
theorem ofPairs_eq_self {pairs : List (Text × Json)} (h : (keys pairs).Nodup) :
    ofPairs pairs = pairs := by
  suffices hfold : ∀ members, (keys (members ++ pairs)).Nodup → pairs.foldl
      (fun members pair => setMember members pair.1 pair.2) members = members ++ pairs from
    hfold [] h
  clear h
  induction pairs with
  | nil => exact fun members _ => (List.append_nil members).symm
  | cons pair pairs ih =>
    intro members h
    have hnew : pair.1 ∉ keys members := by
      rw [keys, List.map_append, List.nodup_append'] at h
      exact fun hmem => h.2.2 hmem List.mem_cons_self
    have hset := setMember_of_not_mem hnew pair.2
    rw [List.foldl_cons, hset, ih, List.append_assoc]
    · rfl
    · rw [List.append_assoc]
      exact h

end SourcePress.Json

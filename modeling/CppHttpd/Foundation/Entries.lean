import Mathlib.Data.List.AList

/-!
# What the entries of a map hold

Every entry of a finite map holds a list of things, and the map holds what its
entries hold.  Up to the order, a change of one entry changes what the map holds
by what it changes in that entry.
-/

namespace CppHttpd.Foundation

variable {K V T : Type*}

def holdings (held : V → List T) (m : AList fun _ : K => V) : List T :=
  m.entries.flatMap fun entry => held entry.2

variable {held : V → List T}

@[simp] theorem holdings_empty : holdings held (∅ : AList fun _ : K => V) = [] := rfl

variable [DecidableEq K] {m : AList fun _ : K => V} {k : K} {v : V}

@[simp] theorem holdings_insert :
    holdings held (m.insert k v) = held v ++ holdings held (m.erase k) := by
  simp only [holdings, AList.entries_insert, List.flatMap_cons]
  rfl

theorem holdings_erase_of_notMem (h : k ∉ m) : holdings held (m.erase k) = holdings held m := by
  have hentries : (m.erase k).entries = m.entries := List.kerase_of_notMem_keys h
  rw [holdings, hentries, holdings]

variable (held) in
theorem holdings_perm (h : m.lookup k = some v) :
    (holdings held m).Perm (held v ++ holdings held (m.erase k)) := by
  have hmem : k ∈ m := AList.lookup_isSome.1 (by rw [h]; rfl)
  obtain ⟨v', before, after, hnot, hentries, herase⟩ := List.exists_of_kerase hmem
  have hv : v' = v := by
    have hentry : ⟨k, v'⟩ ∈ m.entries := by simp [hentries]
    rw [← AList.mem_lookup_iff, h] at hentry
    exact (Option.some.inj hentry).symm
  have hrest : (m.erase k).entries = before ++ after := herase
  rw [holdings, holdings, hentries, hrest, hv, List.flatMap_append, List.flatMap_cons,
    List.flatMap_append]
  exact List.perm_append_comm_assoc _ _ _

@[simp] theorem erase_insert : (m.insert k v).erase k = m.erase k := by
  apply AList.ext
  change (m.insert k v).entries.kerase k = m.entries.kerase k
  simp [AList.entries_insert, List.kerase]

theorem keys_perm (h : k ∈ m) : m.keys.Perm (k :: (m.erase k).keys) := by
  rw [AList.keys_erase]
  exact List.perm_cons_erase h

theorem mem_holdings {t : T} :
    t ∈ holdings held m ↔ ∃ k v, m.lookup k = some v ∧ t ∈ held v := by
  simp only [holdings, List.mem_flatMap, Sigma.exists]
  constructor
  · rintro ⟨k, v, hentry, ht⟩
    exact ⟨k, v, AList.mem_lookup_iff.2 hentry, ht⟩
  · rintro ⟨k, v, hlookup, ht⟩
    exact ⟨k, v, AList.mem_lookup_iff.1 hlookup, ht⟩

/-- If nothing is held twice, what is held is held by one entry. -/
theorem existsUnique_of_mem_holdings {t : T} (hnodup : (holdings held m).Nodup)
    (ht : t ∈ holdings held m) : ∃! k, ∃ v, m.lookup k = some v ∧ t ∈ held v := by
  obtain ⟨k, v, hlookup, hheld⟩ := mem_holdings.1 ht
  refine ⟨k, ⟨v, hlookup, hheld⟩, ?_⟩
  rintro k' ⟨v', hlookup', hheld'⟩
  by_contra hne
  have hrest : t ∈ holdings held (m.erase k) :=
    mem_holdings.2 ⟨k', v', (AList.lookup_erase_ne hne).trans hlookup', hheld'⟩
  have happend := (holdings_perm held hlookup).nodup_iff.1 hnodup
  exact (List.nodup_append.1 happend).2.2 t hheld t hrest rfl

end CppHttpd.Foundation

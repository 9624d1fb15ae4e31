import ColdArchive.Method

/-!
# Names on the wire

A name on the wire stands for a method in a namespace only if it is the name of that method there.
No method has an underscore in its name, so the last underscore ends the namespace, and a name stands
for one method in one namespace at most.
-/

namespace ColdArchive.Method

theorem afterBeginning?_append (s t : String) : afterBeginning? s (s ++ t) = some t := by
  simp [afterBeginning?]

theorem afterBeginning?_eq_some_iff {s t rest : String} :
    afterBeginning? s t = some rest ↔ t = s ++ rest := by
  constructor
  · intro h
    unfold afterBeginning? at h
    split at h
    · next hb =>
      obtain ⟨cs, hcs⟩ := List.isPrefixOf_iff_prefix.mp hb
      obtain rfl := Option.some.inj h
      apply String.toList_injective
      rw [String.toList_append, String.toList_ofList, ← hcs, List.drop_left]
    · cases h
  · rintro rfl
    exact afterBeginning?_append s rest

/-- A method is found by its own name. -/
theorem find?_all_eq_some_iff {name : String} {m : Method} :
    (all.find? fun m => decide (m.name = name)) = some m ↔ m.name = name := by
  constructor
  · intro h
    simpa using List.find?_some h
  · rintro rfl
    cases m <;> rfl

/-- **A name on the wire stands for a method** if it is the name of that method in the namespace. -/
theorem resolve?_eq_some_iff {ns wireName : String} {m : Method} :
    resolve? ns wireName = some m ↔ wireName = m.qualified ns := by
  have hsplit : ∀ name, (afterBeginning? ns wireName).bind (afterBeginning? "_") = some name ↔
      wireName = ns ++ "_" ++ name := by
    intro name
    simp [Option.bind_eq_some_iff, afterBeginning?_eq_some_iff, String.append_assoc]
  unfold resolve?
  cases hn : (afterBeginning? ns wireName).bind (afterBeginning? "_") with
  | none =>
    refine ⟨fun h => (by cases h), fun h => ?_⟩
    rw [(hsplit m.name).mpr h] at hn
    cases hn
  | some name =>
    rw [(hsplit name).mp hn, find?_all_eq_some_iff, qualified]
    refine ⟨fun h => by rw [h], fun h => ?_⟩
    exact (String.append_right_inj _).mp h.symm

/-- **A method is found by its name on the wire**, in whatever namespace. -/
theorem resolve?_qualified (m : Method) (ns : String) : resolve? ns (m.qualified ns) = some m :=
  resolve?_eq_some_iff.mpr rfl

theorem resolve?_eq_none_iff {ns wireName : String} :
    resolve? ns wireName = none ↔ ∀ m : Method, wireName ≠ m.qualified ns := by
  rw [Option.eq_none_iff_forall_ne_some]
  exact forall_congr' fun m => not_congr resolve?_eq_some_iff

theorem underscore_not_mem_name (m : Method) : '_' ∉ m.name.toList := by
  cases m <;> decide

/-- What stands before the last separator is not longer than what stands before any other. -/
theorem length_le_of_separated {α : Type} {sep : α} {as bs as' bs' : List α}
    (h : as ++ sep :: bs = as' ++ sep :: bs') (hb : sep ∉ bs) : as'.length ≤ as.length := by
  rcases List.append_eq_append_iff.mp h with ⟨more, rfl, hrest⟩ | ⟨more, rfl, -⟩
  · cases more with
    | nil => simp
    | cons c more =>
      rw [List.cons_append, List.cons.injEq] at hrest
      exact absurd (hrest.2 ▸ List.mem_append_right more List.mem_cons_self) hb
  · rw [List.length_append]
    exact Nat.le_add_right _ _

/-- **A name on the wire stands for one method in one namespace.** -/
theorem qualified_injective {ns ns' : String} {m m' : Method}
    (h : m.qualified ns = m'.qualified ns') : ns = ns' ∧ m = m' := by
  have hl : ns.toList ++ '_' :: m.name.toList = ns'.toList ++ '_' :: m'.name.toList := by
    simpa [qualified] using congrArg String.toList h
  -- in both names the underscore behind the namespace is the last one
  have hns : ns.toList = ns'.toList := by
    refine (List.append_inj hl (Nat.le_antisymm ?_ ?_)).1
    · exact length_le_of_separated hl.symm (underscore_not_mem_name m')
    · exact length_le_of_separated hl (underscore_not_mem_name m)
  obtain rfl := String.toList_injective hns
  refine ⟨rfl, ?_⟩
  have hfound := resolve?_qualified m ns
  rw [h, resolve?_qualified] at hfound
  exact (Option.some.inj hfound).symm

/-- **Names on the wire are unambiguous.** A name stands for a method in a namespace exactly if it
is the name of the method there. Two namespaces, whatever their characters, in which it stands for
any method are the same one, and it is the same method. -/
theorem names_unambiguous (ns ns' wireName : String) (m m' : Method) :
    (resolve? ns wireName = some m ↔ wireName = m.qualified ns) ∧
      (resolve? ns wireName = some m ∧ resolve? ns' wireName = some m' ↔
        wireName = m.qualified ns ∧ ns = ns' ∧ m = m') := by
  refine ⟨resolve?_eq_some_iff, ?_⟩
  rw [resolve?_eq_some_iff, resolve?_eq_some_iff]
  constructor
  · rintro ⟨h, h'⟩
    exact ⟨h, qualified_injective (h.symm.trans h')⟩
  · rintro ⟨h, rfl, rfl⟩
    exact ⟨h, h⟩

/-- A namespace may have an underscore, the name of a method, or nothing in it. -/
example :
    resolve? "freezer_ancient" "freezer_ancient_close" = some .close ∧
      resolve? "freezer" "freezer_ancient_close" = none ∧ resolve? "" "_sync" = some .sync := by
  decide

end ColdArchive.Method

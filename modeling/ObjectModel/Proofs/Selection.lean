import ObjectModel.Proofs.Store.Hash
import ObjectModel.Sequence
import ObjectModel.SetAlgebra

/-!
# Selections

What a filter, a repetition, an index or a slice takes from a list of items is among the items, and
the elements of a combination of two sets are elements of one of them.
-/

namespace ObjectModel

variable {α ε : Type} {items picked : List α}

theorem filterM_subset {test : α → Except ε Bool} (filters : items.filterM test = .ok picked) :
    picked ⊆ items := by
  have collects : ∀ (items front gathered : List α),
      List.filterAuxM test items front = .ok gathered → gathered ⊆ items ++ front := by
    intro items
    induction items with
    | nil =>
        rintro front _ ⟨⟩
        exact List.Subset.refl _
    | cons item items induction =>
        intro front gathered gathers
        rw [List.filterAuxM, bind_eq_ok_iff] at gathers
        obtain ⟨passed, -, rest⟩ := gathers
        refine List.Subset.trans (induction _ _ rest) ?_
        cases passed with
        | false => exact List.subset_cons_self _ _
        | true => simp
  rw [List.filterM, bind_eq_ok_iff] at filters
  obtain ⟨gathered, gathers, ends⟩ := filters
  obtain rfl := Except.ok.inj ends
  simpa using collects items [] gathered gathers

namespace Sequence

variable {memory : Memory} {size length count : Nat}

theorem replicate_eq_flatten (repeats : replicate memory size length items count = .ok picked) :
    picked = (List.replicate count items).flatten := by
  unfold replicate at repeats
  split at repeats
  · rename_i nothing
    obtain rfl := Except.ok.inj repeats
    rw [Bool.or_eq_true, List.isEmpty_iff, beq_iff_eq] at nothing
    rcases nothing with rfl | rfl
    · simp
    · rfl
  · split at repeats
    · exact (Except.ok.inj repeats).symm
    · contradiction

theorem replicate_subset (repeats : replicate memory size length items count = .ok picked) :
    picked ⊆ items := by
  intro item member
  rw [replicate_eq_flatten repeats] at member
  obtain ⟨copy, is_copy, member⟩ := List.mem_flatten.mp member
  rwa [List.eq_of_mem_replicate is_copy] at member

/-- Items that are repeated at least once come first. -/
theorem prefix_of_replicate (positive : count ≠ 0)
    (repeats : replicate memory size length items count = .ok picked) : items <+: picked := by
  obtain ⟨less, rfl⟩ := Nat.exists_eq_succ_of_ne_zero positive
  rw [replicate_eq_flatten repeats, List.replicate_succ, List.flatten_cons]
  exact List.prefix_append items _

end Sequence

theorem mem_of_itemAt {sequence : String} {index : Int} {item : α}
    (finds : itemAt sequence items index = .ok item) : item ∈ items := by
  obtain ⟨place, -, rest⟩ := bind_eq_ok_iff.mp finds
  split at rest
  · rename_i found
    obtain rfl := Except.ok.inj rest
    exact List.mem_of_getElem? found
  · contradiction

namespace Slice

theorem stride_subset (n : Nat) (items : List α) : stride n items ⊆ items := by
  induction items using stride.induct n with
  | case1 => simp
  | case2 item items induction =>
      rw [stride_cons]
      exact List.cons_subset_cons item (List.Subset.trans induction (List.drop_subset _ _))

theorem window_subset (start stop : Option Int) (items : List α) :
    window start stop items ⊆ items :=
  List.Subset.trans (List.drop_subset _ _) (List.take_subset _ _)

theorem apply_subset {slice : Slice} (selects : slice.apply items = .ok picked) :
    picked ⊆ items := by
  unfold apply at selects
  dsimp only at selects
  split at selects
  · contradiction
  · split at selects
    · obtain rfl := Except.ok.inj selects
      exact List.Subset.trans (stride_subset _ _) (window_subset _ _ items)
    · obtain rfl := Except.ok.inj selects
      refine List.Subset.trans (stride_subset _ _) fun item member => ?_
      exact window_subset _ _ items (List.mem_reverse.mp member)

end Slice

theorem Store.combineSets_subset {store : Store} {operation : SetOperation} {left right : Ref}
    {elements : List Value} (combines : store.combineSets operation left right = .ok elements) :
    elements ⊆ store.elements left ++ store.elements right := by
  cases operation with
  | difference | intersection =>
      exact List.Subset.trans (filterM_subset combines) (List.subset_append_left _ _)
  | symmetricDifference =>
      obtain ⟨from_left, selects_left, rest⟩ := bind_eq_ok_iff.mp combines
      obtain ⟨from_right, selects_right, ends⟩ := bind_eq_ok_iff.mp rest
      obtain rfl := Except.ok.inj ends
      exact List.append_subset.mpr
        ⟨List.subset_append_of_subset_left _ (filterM_subset selects_left),
          List.subset_append_of_subset_right _ (filterM_subset selects_right)⟩
  | union =>
      obtain rfl := Except.ok.inj combines
      exact List.Subset.refl _

end ObjectModel

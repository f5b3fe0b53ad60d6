import ConfigTree.Proofs.Edit.Nesting

/-! How much deeper an edit can make a tree.  What an edit puts in reaches as deep as its path and
its value together, one level more where a merged value becomes an item; the rest stays where it was
or goes.  This holds of edits that fail as well, also of a merge that stops half way. -/

namespace ConfigTree.Node

section

variable {n n' m child value : Node} {levels : Nat}

theorem Within.putChild {fragment : String} (h : Within child levels m)
    (hchild : n.child? fragment = some child) : Within n (1 + levels) (n.putChild fragment m) := by
  have hlt := depth_lt_of_mem_inner (mem_inner_of_child? hchild)
  have hput : Within n (1 + m.depth) (n.putChild fragment m) :=
    within_of_mem fun _ => mem_inner_putChild
  unfold Within at h hput ⊢
  omega

theorem within_update? {β : Type} {f : Node → Node × β} {segments : List String} {r : Node × β}
    (h : n.update? f segments = some r)
    (hf : ∀ m, n.follow? segments = some m → Within m levels (f m).1) :
    Within n (segments.length + levels) r.1 :=
  rises_update? (R := fun levels n n' => Within n levels n')
    (fun hchild h => h.putChild hchild) h hf

end

section

variable {limit levels : Nat} {d : Char} {path : String} {root value parent target : Node}
  {location : Location}

theorem within_editParent {f : Node → Edited Node}
    (hf : ∀ parent, root.parentOf? d path = some parent → Within parent levels (f parent).value) :
    Within root ((Path.parentSegments d path).length + levels) (root.editParent d path f).value := by
  rw [editParent, updateParentOf?_eq_update?]
  split
  · next hr =>
    exact within_update? hr fun m hm => hf m ((parentOf?_eq_follow? ..).trans hm)
  · exact within_self ..

/-! ## Values that are merged -/

theorem within_attach (location : Location) (path : String) (value parent : Node) :
    Within parent (1 + value.depth) (attach location path value parent).value := by
  cases hfailure : (attach location path value parent).failure with
  | none => exact (deepened_attach hfailure).high
  | some e =>
    rw [(attach_unchanged hfailure).1]
    exact within_self ..

theorem within_keepBoth (location : Location) (path : String) (value parent : Node) :
    Within parent (1 + value.depth) (keepBoth location path value parent).value := by
  unfold keepBoth
  split
  · exact within_of_mem fun _ => Multimap.mem_values_modify (Multimap.adds_push value)
  · exact within_attach ..

theorem within_combine {result : Edited Node} (h : combine limit target value = .merged result) :
    Within target (1 + value.depth) result.value := by
  unfold combine at h
  split at h
  · next old items =>
    cases h
    have happend : Within (array old) (array items).depth (array (old ++ items)) :=
      (depth_append old items).le
    exact happend.mono (by omega)
  · next o incoming =>
    cases h
    exact (within_mergeObjects o incoming).mono (by omega)
  · cases h
    exact within_of_mem fun x hx => by simpa [Edited.done, or_comm] using hx
  · split at h
    · cases h
    · next hscalar =>
      cases h
      simp only [Bool.or_eq_true, not_or, Bool.not_eq_true] at hscalar
      rw [Within, Edited.done, depth_scalars hscalar.1 hscalar.2]
      omega

theorem within_mergeChild (hvalue : value.depth ≤ levels)
    (hcombine : ∀ child result, parent.child? location.cut.fragment = some child →
      combine limit child value = .merged result → Within child levels result.value) :
    Within parent (1 + levels) (mergeChild limit location path value parent).value := by
  unfold mergeChild
  split
  · exact within_self ..
  · next child hchild =>
    split
    · next result hm => exact (hcombine child result hchild hm).putChild hchild
    · next hm =>
      rw [eq_of_combine_leftOver hm]
      exact (within_keepBoth ..).mono (by omega)

/-- A merge adds what it adds to the node at its path, and what the way there takes. -/
theorem within_merge (hvalue : value.depth ≤ levels)
    (hcombine : ∀ target result, root.lookup? d path = some target →
      combine limit target value = .merged result → Within target levels result.value) :
    Within root ((Path.segments d path).length + levels) (root.merge limit d path value).value := by
  unfold merge
  split
  · exact within_self ..
  · next location h =>
    have hcut := cut_of_locate? h
    split
    · next hroot =>
      rw [hcut] at hroot
      rw [Path.segments_eq_nil_of_isRoot hroot, List.length_nil, Nat.zero_add]
      split
      · next hm => exact hcombine root _ (lookup?_of_isRoot hroot root) hm
      · exact within_self ..
    · next hroot =>
      rw [hcut] at hroot
      rw [length_segments hroot, Nat.add_assoc]
      refine within_editParent fun parent hparent => ?_
      split
      · refine within_mergeChild hvalue fun child result hchild => hcombine child result ?_
        rw [lookup?_eq_bind_child? (eq_false_of_ne_true hroot), hparent, ← hcut]
        exact hchild
      · exact (within_attach ..).mono (by omega)

/-! ## Removals -/

theorem depth_detach_le (path fragment : String) (n : Node) :
    (detach path fragment n).value.depth ≤ n.depth := by
  have hless {n n' : Node} (hn : n.isCompound = true) (h : ∀ x ∈ n'.inner, x ∈ n.inner) :
      n'.depth ≤ n.depth := by
    have hwithin : Within n (1 + null.depth) n' := within_of_mem fun x hx => .inr (h x hx)
    have hpos := depth_pos_iff.2 hn
    unfold Within at hwithin
    simp only [depth] at hwithin
    omega
  unfold detach
  split
  · split
    · exact hless rfl fun x => Multimap.mem_values_erase
    · exact le_rfl
  · split
    · split
      · exact hless rfl fun x => List.mem_of_mem_eraseIdx
      · exact le_rfl
    · exact le_rfl
  · exact le_rfl

theorem depth_remove_le (d : Char) (path : String) (root : Node) :
    (root.remove d path).value.depth ≤ root.depth := by
  unfold remove
  split
  · exact le_rfl
  · next location h =>
    obtain ⟨parent, hparent, -⟩ := Option.map_eq_some_iff.1 h
    split
    · exact le_rfl
    · split
      · exact le_rfl
      · have hway := length_add_depth_le_of_follow? ((parentOf?_eq_follow? ..).symm.trans hparent)
        have hwithin : Within root ((Path.parentSegments d path).length + parent.depth)
            (root.editParent d path (detach path location.cut.fragment)).value := by
          refine within_editParent fun parent' hparent' => ?_
          cases Option.some.inj (hparent.symm.trans hparent')
          exact (depth_detach_le ..).trans (Nat.le_max_left ..)
        unfold Within at hwithin
        omega

theorem depth_removeFrom_le (d : Char) (paths : List String) (root : Node) (r : Removal) :
    (removeFrom d paths root r).1.depth ≤ root.depth := by
  induction paths generalizing root r with
  | nil => exact le_rfl
  | cons path paths ih => exact (ih ..).trans (depth_remove_le d path root)

end

/-- A value that is set reaches as deep as its path and its own depth; a value that is merged may
take one level more, but not where an object meets an object; and removals add nothing. -/
theorem edits_deepen_by_path_and_value (root value : Node) (d : Char) (path : String)
    (limit : Nat) :
    let k := (Path.segments d path).length
    let set := root.set d path value
    let merged := root.merge limit d path value
    (set.failure = none → k + value.depth ≤ set.value.depth ∧
      set.value.depth ≤ max root.depth (k + value.depth)) ∧
    merged.value.depth ≤ max root.depth (k + 1 + value.depth) ∧
    (∀ o incoming, root.lookup? d path = some (object o) → value = object incoming →
      merged.value.depth ≤ max root.depth (k + value.depth)) ∧
    (root.remove d path).value.depth ≤ root.depth ∧
    ∀ paths, (root.removeAll d paths).1.depth ≤ root.depth := by
  refine ⟨fun hdone => ?_, ?_, fun o incoming ho hincoming => ?_, depth_remove_le d path root,
    fun paths => depth_removeFrom_le d paths root .start⟩
  · have hset := deepened_set hdone
    exact ⟨hset.low, hset.high⟩
  · rw [Nat.add_assoc]
    exact within_merge (Nat.le_add_left ..) fun target result _ => within_combine
  · refine within_merge le_rfl fun target result htarget hm => ?_
    cases Option.some.inj (ho.symm.trans htarget)
    subst hincoming
    cases hm
    exact within_mergeObjects o incoming

/-- The bounds are reached, by a value with a repeated key in an object, in an array and under a new
key. -/
theorem edits_deepen_by_path_and_value_of_repeated_key :
    let o : Multimap Node := ⟨[("b", .single (array []))]⟩
    let incoming : Multimap Node := ⟨[("b", .repeated [array [int 1], array [array []]])]⟩
    let root := object ⟨[("a", .single (object o))]⟩
    let value := object incoming
    let set := root.set '.' "a.c" value
    let among := root.merge 128 '.' "a.b" value
    let merged := root.merge 128 '.' "a" value
    set.failure = none ∧ 2 + value.depth ≤ set.value.depth ∧
    set.value.depth ≤ max root.depth (2 + value.depth) ∧
    among.value.depth ≤ max root.depth (2 + 1 + value.depth) ∧
    among.value.depth = 2 + 1 + value.depth ∧
    root.lookup? '.' "a" = some (object o) ∧ value = object incoming ∧
    merged.value.depth ≤ max root.depth (1 + value.depth) ∧
    merged.value.depth = 1 + value.depth := by
  intro o incoming root value set among merged
  have hset : set.failure = none := by decide
  have hlookup : root.lookup? '.' "a" = some (object o) := rfl
  have hone : (Path.segments '.' "a").length = 1 := by decide
  have htwo : (Path.segments '.' "a.c").length = 2 ∧ (Path.segments '.' "a.b").length = 2 := by
    decide
  obtain ⟨hlow, hhigh⟩ := (edits_deepen_by_path_and_value root value '.' "a.c" 128).1 hset
  have hamong := (edits_deepen_by_path_and_value root value '.' "a.b" 128).2.1
  have hmerged := (edits_deepen_by_path_and_value root value '.' "a" 128).2.2.1 o incoming hlookup
    rfl
  rw [htwo.1] at hlow hhigh
  rw [htwo.2] at hamong
  rw [hone] at hmerged
  exact ⟨hset, hlow, hhigh, hamong, by decide, hlookup, rfl, hmerged, by decide⟩

end ConfigTree.Node

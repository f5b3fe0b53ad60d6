import ConfigTree.Edit.Document
import ConfigTree.Proofs.Edit.Update
import ConfigTree.Proofs.Inline

/-! Edits that fail.  Setting and removing leave the tree as it was, and so does merging unless it
fails for depth, which takes a value that is itself deeper than the limit.  No value given as text
is that deep, so an edit of a document is done or not begun. -/

namespace ConfigTree

namespace Edited

variable {α β : Type}

@[simp] theorem value_failed (a : α) (e : Error) : (failed a e).value = a := rfl

@[simp] theorem failure_map (f : α → β) (e : Edited α) : (e.map f).failure = e.failure := rfl

@[simp] theorem value_map (f : α → β) (e : Edited α) : (e.map f).value = f e.value := rfl

theorem failure_andThen {e : Edited α} {f : α → Edited α} {x : Error}
    (h : (e.andThen f).failure = some x) :
    e.failure = some x ∨ (f e.value).failure = some x := by
  unfold andThen at h
  split at h
  · exact .inr h
  · exact .inl h

end Edited

namespace Node

variable {limit : Nat} {d : Char} {path : String} {root value : Node} {e : Error}

/-! ## Merging objects -/

mutual

/-- Every level that is entered takes a level of the incoming value. -/
theorem failure_mergeUnder {depth : Nat} {key : String} {target : Multimap Node} : (n : Node) →
    (mergeUnder limit depth key target n).failure = some e →
      e = .tooDeep limit ∧ limit < depth + n.depth
  | object ⟨incoming⟩, h => by
    rw [mergeUnder] at h
    split at h
    · split at h
      · next hlt =>
        cases h
        exact ⟨rfl, by simp only [Node.depth]; omega⟩
      · have ⟨he, hlt⟩ := failure_mergeMembers incoming h
        exact ⟨he, by simp only [Node.depth]; omega⟩
    · cases h
  | array items, h => by
    rw [mergeUnder] at h
    split at h <;> cases h
  | null, h | bool _, h | int _, h | float _, h | str _, h | time _, h | userdata _, h => by cases h
termination_by structural n => n

theorem failure_mergeRepeats {depth : Nat} {key : String} {target : Multimap Node} :
    (ns : List Node) → (mergeRepeats limit depth key target ns).failure = some e →
      e = .tooDeep limit ∧ limit < depth + depthItems ns
  | [], h => by cases h
  | n :: ns, h => by
    rw [mergeRepeats] at h
    simp only [depthItems]
    rcases Edited.failure_andThen h with h | h
    · have ⟨he, hlt⟩ := failure_mergeUnder n h
      exact ⟨he, by omega⟩
    · have ⟨he, hlt⟩ := failure_mergeRepeats ns h
      exact ⟨he, by omega⟩
termination_by structural ns => ns

theorem failure_mergeMembers {depth : Nat} {target : Multimap Node} :
    (es : List (String × Member Node)) → (mergeMembers limit depth target es).failure = some e →
      e = .tooDeep limit ∧ limit < depth + depthEntries es
  | [], h => by cases h
  | (key, .single n) :: es, h => by
    rw [mergeMembers] at h
    simp only [depthEntries]
    rcases Edited.failure_andThen h with h | h
    · have ⟨he, hlt⟩ := failure_mergeUnder n h
      exact ⟨he, by omega⟩
    · have ⟨he, hlt⟩ := failure_mergeMembers es h
      exact ⟨he, by omega⟩
  | (key, .repeated ns) :: es, h => by
    rw [mergeMembers] at h
    simp only [depthEntries]
    rcases Edited.failure_andThen h with h | h
    · have ⟨he, hlt⟩ := failure_mergeRepeats ns h
      exact ⟨he, by omega⟩
    · have ⟨he, hlt⟩ := failure_mergeMembers es h
      exact ⟨he, by omega⟩
termination_by structural es => es

end

theorem failure_mergeObjects {target incoming : Multimap Node}
    (h : (mergeObjects limit 1 target incoming).failure = some e) :
    e = .tooDeep limit ∧ limit < (object incoming).depth := by
  obtain ⟨entries⟩ := incoming
  unfold mergeObjects at h
  simp only [Node.depth]
  split at h
  · cases h
    exact ⟨rfl, by omega⟩
  · exact failure_mergeMembers entries h

theorem failure_combine {target : Node} {result : Edited Node}
    (hc : combine limit target value = .merged result) (h : result.failure = some e) :
    e = .tooDeep limit ∧ limit < value.depth := by
  unfold combine at hc
  split at hc
  · cases hc
    cases h
  · cases hc
    exact failure_mergeObjects h
  · cases hc
    cases h
  · split at hc
    · cases hc
    · cases hc
      cases h

/-! ## Edits at the parent -/

theorem attach_unchanged {location : Location} {parent : Node}
    (h : (attach location path value parent).failure = some e) :
    (attach location path value parent).value = parent ∧ ∀ l, e ≠ .tooDeep l := by
  cases parent with
  | array items =>
    simp only [attach] at h
    split at h
    · split at h <;> cases h
    · cases h
  | object o => cases h
  | _ =>
    cases h
    exact ⟨rfl, by simp⟩

theorem detach_unchanged {fragment : String} {parent : Node}
    (h : (detach path fragment parent).failure = some e) :
    (detach path fragment parent).value = parent := by
  cases parent with
  | array items =>
    simp only [detach] at h ⊢
    split at h
    · split at h
      · cases h
      · next hlt => simp [hlt]
    · rfl
  | object o =>
    simp only [detach] at h ⊢
    split at h
    · cases h
    · next hc => simp [hc]
  | _ => rfl

theorem keepBoth_unchanged {location : Location} {parent : Node}
    (h : (keepBoth location path value parent).failure = some e) :
    (keepBoth location path value parent).value = parent ∧ ∀ l, e ≠ .tooDeep l := by
  unfold keepBoth at h ⊢
  split at h
  · cases h
  · exact attach_unchanged h

theorem mergeChild_unchanged {location : Location} {parent : Node}
    (h : (mergeChild limit location path value parent).failure = some e) :
    e = .tooDeep limit ∧ limit < value.depth ∨
      (mergeChild limit location path value parent).value = parent ∧ ∀ l, e ≠ .tooDeep l := by
  unfold mergeChild at h ⊢
  split at h
  · cases h
    exact .inr ⟨rfl, by simp⟩
  · split at h
    · next hc => exact .inl (failure_combine hc h)
    · exact .inr (keepBoth_unchanged h)

/-! ## Edits of a tree -/

/-- An edit of the parent fails for want of one, or for what `f` fails for there. -/
theorem failure_editParent {f : Node → Edited Node}
    (h : (root.editParent d path f).failure = some e) :
    (root.editParent d path f).value = root ∧ e = .parentNotFound path ∨
      ∃ parent, (f parent).failure = some e ∧
        ((f parent).value = parent → (root.editParent d path f).value = root) := by
  cases hp : root.parentOf? d path with
  | none =>
    rw [editParent_of_none hp] at h ⊢
    cases h
    exact .inl ⟨rfl, rfl⟩
  | some parent =>
    rw [(editParent_of_some hp).1] at h
    exact .inr ⟨parent, h, editParent_eq_self hp⟩

theorem editParent_unchanged {f : Node → Edited Node}
    (h : (root.editParent d path f).failure = some e)
    (hf : ∀ parent, (f parent).failure = some e → (f parent).value = parent) :
    (root.editParent d path f).value = root := by
  rcases failure_editParent h with ⟨hv, -⟩ | ⟨parent, hp, hv⟩
  · exact hv
  · exact hv (hf parent hp)

theorem set_unchanged (h : (root.set d path value).failure = some e) :
    (root.set d path value).value = root := by
  unfold set at h ⊢
  split at h
  · rfl
  · split at h
    · cases h
    · next hroot =>
      rw [if_neg hroot]
      exact editParent_unchanged h fun parent hp => (attach_unchanged hp).1

theorem remove_unchanged (h : (root.remove d path).failure = some e) :
    (root.remove d path).value = root := by
  unfold remove at h ⊢
  split at h
  · rfl
  · split at h
    · next hroot => rw [if_pos hroot, Edited.value_failed]
    · next hroot =>
      rw [if_neg hroot]
      split at h
      · next ho => rw [if_pos ho, Edited.value_failed]
      · next ho =>
        rw [if_neg ho]
        exact editParent_unchanged h fun parent => detach_unchanged

/-- A merge that fails for depth has been given a value deeper than the limit; one that fails for
anything else has not begun. -/
theorem merge_unchanged (h : (root.merge limit d path value).failure = some e) :
    e = .tooDeep limit ∧ limit < value.depth ∨
      (root.merge limit d path value).value = root ∧ ∀ l, e ≠ .tooDeep l := by
  unfold merge at h ⊢
  split at h
  · cases h
    exact .inr ⟨rfl, by simp⟩
  · next location hl =>
    split at h
    · next hroot =>
      split at h
      · next hc => exact .inl (failure_combine hc h)
      · next hc =>
        cases h
        exact .inr ⟨by simp [hroot], by simp⟩
    · next hroot =>
      rw [if_neg hroot]
      rcases failure_editParent h with ⟨hv, rfl⟩ | ⟨parent, hp, hv⟩
      · exact .inr ⟨hv, by simp⟩
      · split at hp
        · next ho =>
          rcases mergeChild_unchanged hp with hdeep | ⟨hm, he⟩
          · exact .inl hdeep
          · exact .inr ⟨hv (by rw [if_pos ho, hm]), he⟩
        · next ho =>
          obtain ⟨ha, he⟩ := attach_unchanged hp
          exact .inr ⟨hv (by rw [if_neg ho, ha]), he⟩

end Node

namespace Document

variable {document : Document} {d : Char} {path text : String} {options : ReadOptions} {e : Error}

theorem editWith_unchanged {value : Except Error Node} {f : Node → Node → Edited Node}
    (h : (document.editWith value f).failure = some e)
    (hf : ∀ v, value = .ok v → (f document.root v).failure = some e →
      (f document.root v).value = document.root) :
    (document.editWith value f).value = document := by
  cases value with
  | error x => rfl
  | ok v =>
    simp only [editWith, Edited.failure_map, Edited.value_map] at h ⊢
    rw [hf v rfl h]

theorem setText_unchanged {kind : Option Kind}
    (h : (document.setText d path text kind options).failure = some e) :
    (document.setText d path text kind options).value = document := by
  unfold setText at h ⊢
  exact editWith_unchanged h fun _ _ => Node.set_unchanged

/-- What a value given as text is merged with never fails for depth. -/
theorem merge_ne_tooDeep {root value : Node}
    (hv : Inline.parse text { options with keepRepeats := false } = .ok value)
    (h : (root.merge options.maxDepth d path value).failure = some e) :
    (root.merge options.maxDepth d path value).value = root ∧ ∀ l, e ≠ .tooDeep l := by
  have hdepth := Inline.depth_le_of_parse hv
  rcases Node.merge_unchanged h with ⟨-, hlt⟩ | h
  · exact absurd hlt (Nat.not_lt.2 hdepth)
  · exact h

theorem mergeText_unchanged (h : (document.mergeText d path text options).failure = some e) :
    (document.mergeText d path text options).value = document := by
  rw [mergeText] at h ⊢
  exact editWith_unchanged h fun _ hv hm => (merge_ne_tooDeep hv hm).1

end Document

/-- An edit that fails changes nothing.  Merging a tree that is deeper than the limit is the one
exception, and no text gives such a tree. -/
theorem failed_edit_changes_nothing :
    (∀ (root : Node) (d : Char) (path : String) (value : Node) (e : Error),
      (root.set d path value).failure = some e → (root.set d path value).value = root) ∧
    (∀ (root : Node) (d : Char) (path : String) (e : Error),
      (root.remove d path).failure = some e → (root.remove d path).value = root) ∧
    (∀ (root : Node) (limit : Nat) (d : Char) (path : String) (value : Node) (e : Error),
      (root.merge limit d path value).failure = some e →
        ((∀ l, e ≠ .tooDeep l) → (root.merge limit d path value).value = root) ∧
        ∀ l, e = .tooDeep l → limit < value.depth) ∧
    (∀ (document : Document) (d : Char) (path text : String) (kind : Option Kind)
        (options : ReadOptions) (e : Error),
      (document.setText d path text kind options).failure = some e →
        (document.setText d path text kind options).value.root = document.root) ∧
    (∀ (document : Document) (d : Char) (path text : String) (options : ReadOptions) (e : Error),
      (document.mergeText d path text options).failure = some e →
        (document.mergeText d path text options).value.root = document.root ∧
        ∀ value, Inline.parse text { options with keepRepeats := false } = .ok value →
          ∀ l, e ≠ .tooDeep l) := by
  refine ⟨fun root d path value e => Node.set_unchanged, fun root d path e => Node.remove_unchanged,
    fun root limit d path value e h => ?_, fun document d path text kind options e h => ?_,
    fun document d path text options e h => ⟨?_, fun value hv => ?_⟩⟩
  · rcases Node.merge_unchanged h with ⟨rfl, hlt⟩ | ⟨hv, he⟩
    · exact ⟨fun he => absurd rfl (he limit), fun _ _ => hlt⟩
    · exact ⟨fun _ => hv, fun l hl => absurd hl (he l)⟩
  · rw [Document.setText_unchanged h]
  · rw [Document.mergeText_unchanged h]
  · simp only [Document.mergeText, Document.editWith, hv, Edited.failure_map] at h
    exact (Document.merge_ne_tooDeep hv h).2

/-- Below a scalar nothing can be set or removed, and no scalar is merged into the root; an object
that meets one two levels down is too deep for a limit of one, as a tree and, before anything is
merged, as a text. -/
theorem failed_edit_changes_nothing_below_scalar :
    let leaf : Node := .object ⟨[("a", .single (.int 1))]⟩
    let nest : Node := .object ⟨[("a", .single (.object ∅))]⟩
    let low : ReadOptions := ⟨false, true, 1⟩
    let text := "\x7b\"a\":\x7b\x7d\x7d"
    ((leaf.set '.' "a.b" .null).failure = some (.invalidParent "a.b" .int) ∧
      (leaf.set '.' "a.b" .null).value = leaf) ∧
    ((leaf.remove '.' "a.b").failure = some (.keyNotFound "a.b") ∧
      (leaf.remove '.' "a.b").value = leaf) ∧
    ((leaf.merge 1 '.' "." .null).failure = some (.invalidRoot .merge .null) ∧
      (leaf.merge 1 '.' "." .null).value = leaf) ∧
    ((nest.merge 1 '.' "." nest).failure = some (.tooDeep 1) ∧ 1 < nest.depth) ∧
    ((Document.setText ⟨leaf, .json⟩ '.' "a.b" "2" (some .int) low).failure =
        some (.invalidParent "a.b" .int) ∧
      (Document.setText ⟨leaf, .json⟩ '.' "a.b" "2" (some .int) low).value.root = leaf) ∧
    ((Document.mergeText ⟨nest, .json⟩ '.' "." text low).failure = some (.tooDeep 1) ∧
      (Document.mergeText ⟨nest, .json⟩ '.' "." text low).value.root = nest) := by
  intro leaf nest low text
  have hset : (leaf.set '.' "a.b" .null).failure = some (.invalidParent "a.b" .int) := by
    decide +kernel
  have hremove : (leaf.remove '.' "a.b").failure = some (.keyNotFound "a.b") := by decide +kernel
  have hroot : (leaf.merge 1 '.' "." .null).failure = some (.invalidRoot .merge .null) := by
    decide +kernel
  have hmerge : (nest.merge 1 '.' "." nest).failure = some (.tooDeep 1) := by decide +kernel
  have hsetText : (Document.setText ⟨leaf, .json⟩ '.' "a.b" "2" (some .int) low).failure =
      some (.invalidParent "a.b" .int) := by decide +kernel
  have hmergeText : (Document.mergeText ⟨nest, .json⟩ '.' "." text low).failure =
      some (.tooDeep 1) := by decide +kernel
  obtain ⟨hsetSame, hremoveSame, hmergeSame, hsetTextSame, hmergeTextSame⟩ :=
    failed_edit_changes_nothing
  exact ⟨⟨hset, hsetSame leaf '.' "a.b" .null _ hset⟩,
    ⟨hremove, hremoveSame leaf '.' "a.b" _ hremove⟩,
    ⟨hroot, (hmergeSame leaf 1 '.' "." .null _ hroot).1 fun l hl => by cases hl⟩,
    ⟨hmerge, (hmergeSame nest 1 '.' "." nest _ hmerge).2 1 rfl⟩,
    ⟨hsetText, hsetTextSame _ '.' "a.b" "2" (some .int) low _ hsetText⟩,
    hmergeText, (hmergeTextSame _ '.' "." _ low _ hmergeText).1⟩

end ConfigTree

import ConfigTree.Edit.Document
import ConfigTree.Proofs.Edit.Set
import ConfigTree.Proofs.Inline

/-! Well-formed trees stay well formed.  Every tree that is read is, every edit keeps a tree so,
also one that fails half way, and so does every sequence of edits at each of its steps. -/

namespace ConfigTree

theorem Edited.value_andThen {α : Type} {motive : α → Prop} {e : Edited α} {f : α → Edited α}
    (he : motive e.value) (hf : ∀ a, motive a → motive (f a).value) :
    motive (e.andThen f).value := by
  unfold andThen
  split
  · exact hf e.value he
  · exact he

namespace Node

/-! ## Objects -/

section

variable {o : Multimap Node} {n : Node} {key : String}

theorem WellFormed.sound (h : (object o).WellFormed) : o.Sound := (wellFormed_object_iff.1 h).1

theorem WellFormed.modify {change : Member Node → Member Node} (h : (object o).WellFormed)
    (hn : n.WellFormed) (ha : Multimap.Adds n change) (hc : ∀ m, m.IsSound → (change m).IsSound) :
    (object (o.modify key change)).WellFormed := by
  refine wellFormed_object_iff.2 ⟨h.sound.modify hc key, fun m hm => ?_⟩
  rcases Multimap.mem_values_modify ha hm with rfl | hm
  · exact hn
  · exact h.inner hm

theorem WellFormed.modifyPush (h : (object o).WellFormed) (hn : n.WellFormed) :
    (object (o.modify key (·.push n))).WellFormed :=
  h.modify hn (Multimap.adds_push n) fun _ hm => hm.push n

theorem WellFormed.erase (h : (object o).WellFormed) : (object (o.erase key)).WellFormed :=
  wellFormed_object_iff.2 ⟨h.sound.erase key, fun _ hm => h.inner (Multimap.mem_values_erase hm)⟩

theorem wellFormed_append {items more : List Node} (h : (array items).WellFormed)
    (hm : (array more).WellFormed) : (array (items ++ more)).WellFormed :=
  Everywhere.append lasting_sound h hm

theorem wellFormed_singleton (h : n.WellFormed) : (array [n]).WellFormed :=
  wellFormed_array_iff.2 fun _ hm => List.mem_singleton.1 hm ▸ h

end

/-! ## Merging objects -/

section

variable {limit : Nat}

mutual

theorem Everywhere.mergeUnder {p : Node → Prop} (hp : Lasting p) {depth : Nat} {key : String}
    {target : Multimap Node} (ht : (object target).Everywhere p) : (n : Node) → n.Everywhere p →
      (object (Node.mergeUnder limit depth key target n).value).Everywhere p
  | object ⟨incoming⟩, hn => by
    rw [Node.mergeUnder]
    split
    · next o ho =>
      have hinner : (object o).Everywhere p := ht.inner (Multimap.mem_values_of_get? ho)
      refine ht.putChild hp.stable ?_ key
      split
      · exact hinner
      · exact hinner.mergeMembers hp incoming fun e he m hm =>
          hn.inner (Multimap.mem_values_of_mem he hm)
    · exact ht.insert hp hn key
  | .array items, hn => by
    rw [Node.mergeUnder]
    split
    · next old ho =>
      exact ht.putChild hp.stable (.append hp (ht.inner (Multimap.mem_values_of_get? ho)) hn) key
    · exact ht.insert hp hn key
  | null, hn | bool _, hn | int _, hn | float _, hn | str _, hn | time _, hn | userdata _, hn =>
    ht.insert hp hn key
termination_by structural n => n

theorem Everywhere.mergeRepeats {p : Node → Prop} (hp : Lasting p) {depth : Nat} {key : String}
    {target : Multimap Node} (ht : (object target).Everywhere p) : (ns : List Node) →
      (∀ n ∈ ns, n.Everywhere p) →
        (object (Node.mergeRepeats limit depth key target ns).value).Everywhere p
  | [], _ => ht
  | n :: ns, hn => by
    rw [Node.mergeRepeats]
    exact Edited.value_andThen (motive := fun t => (object t).Everywhere p)
      (ht.mergeUnder hp n (hn n List.mem_cons_self))
      fun t ht => ht.mergeRepeats hp ns fun m hm => hn m (List.mem_cons_of_mem _ hm)
termination_by structural ns => ns

theorem Everywhere.mergeMembers {p : Node → Prop} (hp : Lasting p) {depth : Nat}
    {target : Multimap Node} (ht : (object target).Everywhere p) :
    (es : List (String × Member Node)) → (∀ e ∈ es, ∀ n ∈ e.2.values, n.Everywhere p) →
      (object (Node.mergeMembers limit depth target es).value).Everywhere p
  | [], _ => ht
  | (key, .single n) :: es, hn => by
    rw [Node.mergeMembers]
    have hm : n.Everywhere p := hn (key, .single n) List.mem_cons_self n List.mem_cons_self
    exact Edited.value_andThen (motive := fun t => (object t).Everywhere p) (ht.mergeUnder hp n hm)
      fun t ht => ht.mergeMembers hp es fun e he => hn e (List.mem_cons_of_mem _ he)
  | (key, .repeated ns) :: es, hn => by
    rw [Node.mergeMembers]
    have hm : ∀ n ∈ ns, n.Everywhere p := hn (key, .repeated ns) List.mem_cons_self
    exact Edited.value_andThen (motive := fun t => (object t).Everywhere p)
      (ht.mergeRepeats hp ns hm)
      fun t ht => ht.mergeMembers hp es fun e he => hn e (List.mem_cons_of_mem _ he)
termination_by structural es => es

end

theorem wellFormed_mergeObjects {depth : Nat} {target incoming : Multimap Node}
    (ht : (object target).WellFormed) (hi : (object incoming).WellFormed) :
    (object (mergeObjects limit depth target incoming).value).WellFormed := by
  unfold mergeObjects
  split
  · exact ht
  · exact Everywhere.mergeMembers lasting_sound ht incoming.entries
      fun e he m hm => hi.inner (Multimap.mem_values_of_mem he hm)

theorem wellFormed_combine {target value : Node} {result : Edited Node} (ht : target.WellFormed)
    (hv : value.WellFormed) (h : combine limit target value = .merged result) :
    result.value.WellFormed := by
  unfold combine at h
  split at h
  · cases h
    exact wellFormed_append ht hv
  · cases h
    exact wellFormed_mergeObjects ht hv
  · cases h
    exact wellFormed_append ht (wellFormed_singleton hv)
  · split at h <;> cases h
    exact wellFormed_append (wellFormed_singleton ht) (wellFormed_singleton hv)

theorem eq_of_combine_leftOver {target value left : Node}
    (h : combine limit target value = .leftOver left) : left = value := by
  unfold combine at h
  split at h
  · cases h
  · cases h
  · cases h
  · split at h <;> cases h
    rfl

end

/-! ## Edits -/

section

variable {limit : Nat} {d : Char} {path : String} {root value parent : Node}
  {location : Location}

theorem wellFormed_attach (hp : parent.WellFormed) (hv : value.WellFormed) :
    (attach location path value parent).value.WellFormed := Everywhere.attach lasting_sound hp hv

theorem wellFormed_keepBoth (hp : parent.WellFormed) (hv : value.WellFormed) :
    (keepBoth location path value parent).value.WellFormed := by
  unfold keepBoth
  split
  · exact hp.modifyPush hv
  · exact wellFormed_attach hp hv

theorem wellFormed_mergeChild (hp : parent.WellFormed) (hv : value.WellFormed) :
    (mergeChild limit location path value parent).value.WellFormed := by
  unfold mergeChild
  split
  · exact hp
  · next child hchild =>
    have hc : child.WellFormed := hp.inner (mem_inner_of_child? hchild)
    split
    · next hm => exact Everywhere.putChild lasting_sound.stable hp (wellFormed_combine hc hv hm) _
    · next hm =>
      rw [eq_of_combine_leftOver hm]
      exact wellFormed_keepBoth hp hv

theorem wellFormed_detach {fragment : String} (hp : parent.WellFormed) :
    (detach path fragment parent).value.WellFormed := by
  cases parent with
  | array items =>
    simp only [detach]
    split
    · split
      · exact wellFormed_array_iff.2 fun n hn => hp.inner (List.mem_of_mem_eraseIdx hn)
      · exact hp
    · exact hp
  | object o =>
    simp only [detach]
    split
    · exact hp.erase
    · exact hp
  | _ => exact hp

theorem wellFormed_set (hr : root.WellFormed) (hv : value.WellFormed) :
    (root.set d path value).value.WellFormed := Everywhere.set lasting_sound hr hv

theorem wellFormed_merge (hr : root.WellFormed) (hv : value.WellFormed) :
    (root.merge limit d path value).value.WellFormed := by
  unfold merge
  split
  · exact hr
  · split
    · split
      · next hm => exact wellFormed_combine hr hv hm
      · exact hr
    · refine Everywhere.editParent lasting_sound.stable hr fun _ hp => ?_
      split
      · exact wellFormed_mergeChild hp hv
      · exact wellFormed_attach hp hv

theorem wellFormed_remove (hr : root.WellFormed) : (root.remove d path).value.WellFormed := by
  unfold remove
  split
  · exact hr
  · split
    · exact hr
    · split
      · exact hr
      · exact Everywhere.editParent lasting_sound.stable hr fun _ hp => wellFormed_detach hp

theorem wellFormed_removeFrom (hr : root.WellFormed) (paths : List String) (r : Removal) :
    (removeFrom d paths root r).1.WellFormed := by
  induction paths generalizing root r with
  | nil => exact hr
  | cons p ps ih => exact ih (wellFormed_remove hr) _

end

end Node

/-! ## Sequences of edits -/

/-- A step of a session. -/
inductive Edit
  | set (d : Char) (path : String) (value : Node)
  | merge (limit : Nat) (d : Char) (path : String) (value : Node)
  | remove (d : Char) (path : String)
  | removeAll (d : Char) (paths : List String)

namespace Edit

/-- The tree after the step, whether it failed or not. -/
def apply (root : Node) : Edit → Node
  | set d path value => (root.set d path value).value
  | merge limit d path value => (root.merge limit d path value).value
  | remove d path => (root.remove d path).value
  | removeAll d paths => (root.removeAll d paths).1

/-- The trees after each step. -/
def states : Node → List Edit → List Node
  | _, [] => []
  | root, e :: es => e.apply root :: states (e.apply root) es

/-- The value of the step, if it has one, is well formed. -/
def WellFormed : Edit → Prop
  | set _ _ value | merge _ _ _ value => value.WellFormed
  | remove .. | removeAll .. => True

theorem wellFormed_apply {root : Node} {e : Edit} (hr : root.WellFormed) (he : e.WellFormed) :
    (e.apply root).WellFormed := by
  cases e with
  | set d path value => exact Node.wellFormed_set hr he
  | merge limit d path value => exact Node.wellFormed_merge hr he
  | remove d path => exact Node.wellFormed_remove hr
  | removeAll d paths => exact Node.wellFormed_removeFrom hr paths .start

theorem wellFormed_states {root : Node} {edits : List Edit} (hr : root.WellFormed)
    (he : ∀ e ∈ edits, e.WellFormed) : ∀ n ∈ states root edits, n.WellFormed := by
  induction edits generalizing root with
  | nil => nofun
  | cons e es ih =>
    have hnext := wellFormed_apply hr (he e List.mem_cons_self)
    intro n hn
    rcases List.mem_cons.1 hn with rfl | hn
    · exact hnext
    · exact ih hnext (fun e h => he e (List.mem_cons_of_mem _ h)) n hn

end Edit

/-- Whatever is read is well formed, holds nothing opaque, and a duration only as the whole of it;
every step of a session leaves the tree well formed; and in a well-formed tree no key is without a
first value. -/
theorem wellFormed_read_and_edited :
    (∀ (text source : String) (options : ReadOptions) (document : Document),
      Document.parse text source options = .ok document → document.root.IsRead) ∧
    (∀ (text : String) (options : ReadOptions) (n : Node),
      Inline.parse text options = .ok n → n.IsRead) ∧
    (∀ (kind : Kind) (text : String) (options : ReadOptions) (n : Node),
      Inline.parseAs kind text options = .ok n → n.IsRead) ∧
    (∀ (root : Node) (edits : List Edit), root.WellFormed → (∀ e ∈ edits, e.WellFormed) →
      ∀ n ∈ Edit.states root edits, n.WellFormed) ∧
    (∀ n : Node, n.WellFormed → n.Everywhere Node.KeysFilled) :=
  ⟨fun _ _ _ _ => Document.isRead_root, fun _ _ _ => Inline.isRead_of_parse,
    fun _ _ _ _ => Inline.isRead_of_parseAs, fun _ _ => Edit.wellFormed_states,
    fun _ => Node.WellFormed.keysFilled⟩

theorem Except.exists_of_toBool {ε α : Type} {e : Except ε α} (h : e.toBool = true) :
    ∃ a, e = .ok a := by
  cases e with
  | ok a => exact ⟨a, rfl⟩
  | error e => cases h

/-- A merge that is too deep below its second key stops after the first, and a removal follows. -/
theorem wellFormed_read_and_edited_half_merged :
    (∃ document, Document.parse "\x7b\"a\": [1], \"a\": 2\x7d" "file" default = .ok document ∧
      document.root.IsRead) ∧
    (∃ n, Inline.parse "2min" default = .ok n ∧ n.IsRead) ∧
    (∃ n, Inline.parseAs .time "2" default = .ok n ∧ n.IsRead) ∧
    let root : Node := .object ⟨[("a", .single (.object ∅)),
      ("b", .single (.object ⟨[("c", .single (.object ∅))]⟩))]⟩
    let overlay : Node := .object ⟨[("x", .repeated [.int 1, .int 2]),
      ("b", .single (.object ⟨[("c", .single (.object ∅))]⟩))]⟩
    (root.merge 2 '.' "." overlay).failure = some (.tooDeep 2) ∧
      (∀ n ∈ Edit.states root [.merge 2 '.' "." overlay, .remove '.' "b"], n.WellFormed) ∧
      overlay.Everywhere Node.KeysFilled := by
  refine ⟨?_, ?_, ?_, ?_⟩
  · obtain ⟨document, h⟩ := Except.exists_of_toBool (e := Document.parse
      "\x7b\"a\": [1], \"a\": 2\x7d" "file" default) (by decide +kernel)
    exact ⟨document, h, wellFormed_read_and_edited.1 _ _ _ _ h⟩
  · obtain ⟨n, h⟩ := Except.exists_of_toBool (e := Inline.parse "2min" default) (by decide +kernel)
    exact ⟨n, h, wellFormed_read_and_edited.2.1 _ _ _ h⟩
  · obtain ⟨n, h⟩ := Except.exists_of_toBool (e := Inline.parseAs .time "2" default)
      (by decide +kernel)
    exact ⟨n, h, wellFormed_read_and_edited.2.2.1 _ _ _ _ h⟩
  · intro root overlay
    have hroot : root.WellFormed := by decide +kernel
    have hoverlay : overlay.WellFormed := by decide +kernel
    refine ⟨by decide +kernel, wellFormed_read_and_edited.2.2.2.1 root _ hroot fun e he => ?_,
      wellFormed_read_and_edited.2.2.2.2 overlay hoverlay⟩
    simp only [List.mem_cons, List.not_mem_nil, or_false] at he
    rcases he with rfl | rfl
    · exact hoverlay
    · trivial

end ConfigTree

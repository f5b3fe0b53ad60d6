import ConfigTree.Proofs.Edit.Nesting
import ConfigTree.Proofs.Edit.Reload

/-! The nesting limit of a document after an edit.  A document is read within the limit and so is a
value given as text, but the value may be put below as many levels as there are above it, a repeated
key is written as an array and so one level deeper than it counts, and the JSON reader has a limit
of its own.  An edit keeps a document readable exactly if none of the three is too much. -/

namespace ConfigTree

/-- How a value given as text comes into a document. -/
inductive Placing
  | set (kind : Option Kind)
  | merge

namespace Placing

def read (text : String) (options : ReadOptions) : Placing → Except Error Node
  | set (some kind) => Inline.parseAs kind text options
  | set none => Inline.parse text options
  | merge => Inline.parse text { options with keepRepeats := false }

def apply (document : Document) (d : Char) (path text : String) (options : ReadOptions) :
    Placing → Edited Document
  | set kind => document.setText d path text kind options
  | merge => document.mergeText d path text options

def edit (limit : Nat) (d : Char) (path : String) (value root : Node) : Placing → Edited Node
  | set _ => root.set d path value
  | merge => root.merge limit d path value

/-- The levels of the path and of the value in its place. -/
def levels (root : Node) (d : Char) (path : String) (value : Node) : Placing → Nat
  | set _ => (Path.segments d path).length + value.depth
  | merge => (Path.segments d path).length + value.mergedLevels (root.lookup? d path)

section

variable {document : Document} {d : Char} {path text : String} {options : ReadOptions}
  {placing : Placing} {value : Node}

theorem apply_eq_edit (hvalue : placing.read text options = .ok value) :
    placing.apply document d path text options =
      (placing.edit options.maxDepth d path value document.root).map
        fun root => { document with root } := by
  cases placing with
  | set kind =>
    cases kind <;>
    · simp only [read] at hvalue
      simp only [apply, edit, Document.setText, hvalue, Document.editWith]
  | merge =>
    simp only [read] at hvalue
    simp only [apply, edit, Document.mergeText, hvalue, Document.editWith]

theorem deepened_apply (hvalue : placing.read text options = .ok value)
    (hdone : (placing.apply document d path text options).failure = none) :
    document.root.Deepened (placing.levels document.root d path value)
      (placing.apply document d path text options).value.root := by
  rw [apply_eq_edit hvalue, Edited.failure_map] at hdone
  rw [apply_eq_edit hvalue, Edited.value_map]
  cases placing with
  | set kind =>
    simp only [edit, levels] at hdone ⊢
    exact Node.deepened_set hdone
  | merge =>
    simp only [edit, levels] at hdone ⊢
    exact Node.deepened_merge (Inline.isRead_of_parse hvalue).wellFormed.keysDistinct
      (Inline.noRepeats_of_parse rfl hvalue) hdone

theorem levels_pos (hvalue : placing.read text options = .ok value)
    (hdone : (placing.apply document d path text options).failure = none)
    (hcompound : (placing.apply document d path text options).value.root.isCompound = true) :
    0 < placing.levels document.root d path value := by
  rw [apply_eq_edit hvalue, Edited.failure_map] at hdone
  rw [apply_eq_edit hvalue, Edited.value_map, ← Node.depth_pos_iff] at hcompound
  cases placing with
  | merge =>
    simp only [edit, levels] at hdone ⊢
    exact Node.mergedLevels_pos hdone
  | set kind =>
    simp only [edit, levels] at hdone hcompound ⊢
    exact Node.setLevels_pos hdone hcompound

end

end Placing

namespace Document

variable {document : Document} {options : ReadOptions}

/-- The JSON text of an array or an object is read again if both the reader's limit and that of the
document allow for it. -/
theorem written_json_is_read_iff (hcompound : document.root.isCompound = true)
    (options : ReadOptions) :
    ∃ text, Text.ofBytes? (document.write (some .json)) = some text ∧ ∀ source,
      ((∃ again, parse text source options = .ok again) ↔
        document.root.canon.depth ≤ 127 ∧
          (document.root.toValue.toNode options).depth ≤ options.maxDepth) := by
  have hwrite := @write_of_json document (some .json) rfl
  refine ⟨_, hwrite ▸ Text.ofBytes?_bytes _, fun source => ?_⟩
  have hspells := Json.spells_pretty_reread 0 document.root.toValue
  have hopen := Node.Printable.opens_pretty hcompound
  have hgap : Json.Gap ['\n'] := Json.gap_newline 0
  have hdepth : document.root.toValue.reread.depth = document.root.canon.depth := by
    rw [Value.depth_reread, Node.depth_toValue]
  by_cases hlevels : document.root.canon.depth ≤ 127
  · rw [parse_of_spells hspells hopen (hdepth.trans_le hlevels) hgap, Value.depth_toNode_reread]
    split
    · next hdeep => exact ⟨nofun, fun h => absurd h.2 (not_le.2 hdeep)⟩
    · next hdeep => exact ⟨fun _ => ⟨hlevels, not_lt.1 hdeep⟩, fun _ => ⟨_, rfl⟩⟩
  · have hrefused := hspells.readAll_of_deep (hdepth ▸ not_le.1 hlevels) ['\n']
    refine ⟨fun ⟨again, h⟩ => ?_, fun h => absurd h.1 hlevels⟩
    rw [parse_opens (hopen.append _)] at h
    split at h
    · cases h
    · next v hv => exact absurd hv (hrefused v)

/-- An edit with a value given as text leaves a document within its nesting limit, and such that its
JSON text is read again, exactly if the levels of the path and of the value together are within the
limit, and those of the tree with its repeated keys as arrays within the limits of the reader and of
the document. -/
theorem edited_within_limit_iff {text source : String} {placing : Placing} {d : Char}
    {path given : String} {value : Node} (hread : parse text source options = .ok document)
    (hvalue : placing.read given options = .ok value)
    (hdone : (placing.apply document d path given options).failure = none)
    (hcompound : (placing.apply document d path given options).value.root.isCompound = true) :
    let edited := (placing.apply document d path given options).value
    (edited.root.depth ≤ options.maxDepth ∧
      ∃ written, Text.ofBytes? (edited.write (some .json)) = some written ∧
        ∀ source, ∃ again, parse written source options = .ok again) ↔
    (placing.levels document.root d path value ≤ options.maxDepth ∧
      edited.root.canon.depth ≤ 127 ∧
      (edited.root.toValue.toNode options).depth ≤ options.maxDepth) := by
  intro edited
  have hdeepened := Placing.deepened_apply hvalue hdone
  have hpos := Placing.levels_pos hvalue hdone hcompound
  have hlow := hdeepened.low
  have hhigh := hdeepened.high
  -- A blank text is read as an empty object whatever the limit.
  have hroot : document.root.depth ≤ max options.maxDepth 1 := by
    rcases root_of_parse hread with ⟨-, hr⟩ | ⟨hle, -⟩
    · rw [hr]
      exact Nat.le_max_right ..
    · omega
  have hlevels : edited.root.depth ≤ options.maxDepth ↔
      placing.levels document.root d path value ≤ options.maxDepth :=
    ⟨hlow.trans, fun h => hhigh.trans (by omega)⟩
  obtain ⟨written, hwritten, hagain⟩ := written_json_is_read_iff hcompound options
  rw [hlevels]
  refine and_congr_right fun _ => ⟨fun ⟨written', hwritten', h⟩ => ?_, fun h => ?_⟩
  · cases Option.some.inj (hwritten.symm.trans hwritten')
    exact (hagain "").1 (h "")
  · exact ⟨written, hwritten, fun source => (hagain source).2 h⟩

/-- An object becomes an item of an array, two levels below the root. -/
theorem edited_within_limit_in_array :
    let root : Node := .object ⟨[("a", .single (.array [.int 1]))]⟩
    let value : Node := .object ⟨[("k", .single (.bool true))]⟩
    let options : ReadOptions := ⟨false, true, 3⟩
    let given := Json.print value.toValue
    let edited := (Placing.merge.apply ⟨root, .json⟩ '.' "a" given options).value
    edited.root.depth ≤ 3 ∧ ∃ written, Text.ofBytes? (edited.write (some .json)) = some written ∧
      ∀ source, ∃ again, parse written source options = .ok again := by
  intro root value options given edited
  have hroot : root.Printable :=
    ⟨by decide +kernel, by decide +kernel, by decide +kernel, by decide +kernel⟩
  have hvalue : value.Printable :=
    ⟨by decide +kernel, by decide +kernel, by decide +kernel, by decide +kernel⟩
  have hread : parse (Json.print root.toValue) "file" options = .ok ⟨root, .json⟩ :=
    hroot.parse_print rfl rfl "file"
  have hgiven : Placing.merge.read given options = .ok value :=
    hvalue.inlineParse_print rfl
  exact (edited_within_limit_iff hread hgiven (by decide +kernel) (by decide +kernel)).2
    ⟨by decide +kernel, by decide +kernel, by decide +kernel⟩

/-- With a limit of one level an object is set below the root, and the document is not read again.
-/
theorem edited_beyond_limit :
    let document : Document := ⟨.object ⟨[("a", .single (.int 1))]⟩, .json⟩
    let value : Node := .object ⟨[("b", .single (.int 1))]⟩
    let options : ReadOptions := ⟨false, true, 1⟩
    let edited := (Placing.set none).apply document '.' "a" (Json.print value.toValue) options
    parse (Json.print document.root.toValue) "file" options = .ok document ∧
      document.root.isCompound = true ∧ edited.failure = none ∧
      edited.value.root.isCompound = true ∧ options.maxDepth < edited.value.root.depth ∧
      ∃ written, Text.ofBytes? (edited.value.write (some .json)) = some written ∧
        ∀ source, ¬ ∃ again, parse written source options = .ok again := by
  intro document value options edited
  have hroot : document.root.Printable :=
    ⟨by decide +kernel, by decide +kernel, by decide +kernel, by decide +kernel⟩
  have hcompound : edited.value.root.isCompound = true := by decide +kernel
  obtain ⟨written, hwritten, hagain⟩ := written_json_is_read_iff hcompound options
  refine ⟨hroot.parse_print rfl rfl "file", rfl, by decide +kernel, hcompound, by decide +kernel,
    written, hwritten, fun source h => ?_⟩
  exact absurd ((hagain source).1 h).2 (by decide +kernel)

end Document

end ConfigTree

import ConfigTree.Edit.Document
import ConfigTree.Proofs.Edit.Set
import ConfigTree.Proofs.Json.Limit
import ConfigTree.Proofs.Query.Answer
import ConfigTree.Proofs.Text.Bytes

/-! Setting a value in a JSON document, writing the document, reading it again and asking for the
value gives the value's text back, as long as the value is not nested too deep for the reader.  Text
of a deeper value is set as a string. -/

namespace ConfigTree

namespace Node

/-- The tree says the same in JSON text: no floating-point number, duration or opaque data in it,
and no repeated key. -/
structure Plain (n : Node) : Prop where
  wellFormed : n.WellFormed
  free_float : n.Free .float
  free_time : n.Free .time
  free_userdata : n.Free .userdata
  noRepeats : n.NoRepeats

theorem Plain.canon_eq_self {n : Node} (h : n.Plain) : n.canon = n :=
  Node.canon_eq_self h.free_time h.free_userdata h.noRepeats

theorem Plain.printable {n : Node} (h : n.Plain) (hdepth : n.depth ≤ 127) : n.Printable where
  keysDistinct := h.wellFormed.keysDistinct
  free_float := h.free_float
  free_time := h.free_time
  levels := h.canon_eq_self.symm ▸ hdepth

theorem Plain.set {root value : Node} (hr : root.Plain) (hv : value.Plain) (d : Char)
    (path : String) : (root.set d path value).value.Plain where
  wellFormed := hr.wellFormed.set lasting_sound hv.wellFormed
  free_float := hr.free_float.set (lasting_kind_ne .float) hv.free_float
  free_time := hr.free_time.set (lasting_kind_ne .time) hv.free_time
  free_userdata := hr.free_userdata.set (lasting_kind_ne .userdata) hv.free_userdata
  noRepeats := hr.noRepeats.set lasting_unrepeated hv.noRepeats

/-- What a path other than the root leads to lies in an array or an object. -/
theorem isCompound_of_lookup? {d : Char} {path : String} (hroot : (Path.cut d path).isRoot = false)
    {n m : Node} (h : n.lookup? d path = some m) : n.isCompound = true := by
  rw [lookup?, Path.segments_eq_of_cut hroot] at h
  cases hs : Path.parentSegments d path ++ [(Path.cut d path).fragment] with
  | nil => simp at hs
  | cons s ss =>
    rw [hs] at h
    obtain ⟨child, hchild, -⟩ := Option.bind_eq_some_iff.1 h
    exact isCompound_of_child? hchild

theorem getLast?_render_json (n : Node) {f : Format} (hf : f = .json ∨ f = .compactJson) :
    (n.render f).getLast? ≠ some 10 := by
  intro hlast
  rcases hf with rfl | rfl
  · rw [render, Json.printPretty, String.toList_ofList] at hlast
    exact (Json.spells_pretty_reread 0 n.toValue).endsWell (Text.getLast?_of_getLast?_bytes hlast)
  · rw [render, Json.print, String.toList_ofList] at hlast
    exact (Json.spells_compact_reread n.toValue).endsWell (Text.getLast?_of_getLast?_bytes hlast)

end Node

/-- How a query is run that only asks for compact JSON. -/
def Query.Options.compactJson (d d' : Char) : Options :=
  { (default : Options) with inputDelimiter := d, outputDelimiter := d', format := .compactJson }

/-- A path that leads to a value is answered with the value's text on a line. -/
theorem Query.answer_compactJson {d d' : Char} {root v : Node} {path : String}
    (hbar : '|' ∉ path.toList) (htrim : Text.trim path.toList = path.toList)
    (hlookup : root.lookup? d path = some v) :
    answer (.compactJson d d') root [path] =
      ⟨Text.bytes ((Json.print v.toValue).toList ++ ['\n']), false, .ok ()⟩ := by
  have hfound : root.lookup? (Options.compactJson d d').inputDelimiter path = some v := hlookup
  have hformat : (Options.compactJson d d').format = .compactJson := rfl
  have hlast := v.getLast?_render_json (.inr rfl)
  rw [answer_path hbar htrim rfl rfl rfl, hfound, Option.getD_some, recordBytes, hformat,
    if_neg (by simpa using hlast), Text.bytes_append]
  rfl

namespace Document

/-- The text of `v` is set in a document that was read from JSON text, at a path that a request can
name and where there is a place for it. -/
structure Sets (document : Document) (d : Char) (path : String) (v : Node)
    (options : ReadOptions) : Prop where
  read : ∃ text source options', options'.foldCase = false ∧
    Document.parse text source options' = .ok document
  json : document.dialect = .json
  root_free_float : document.root.Free .float
  root_noRepeats : document.root.NoRepeats
  value : v.Plain
  foldCase : options.foldCase = false
  notRoot : (Path.cut d path).isRoot = false
  trimmed : Text.trim path.toList = path.toList
  noBar : '|' ∉ path.toList
  succeeds : (document.setText d path (Json.print v.toValue) none options).failure = none
  place : ∃ parent, document.root.parentOf? d path = some parent ∧
    parent.HasPlace (Path.cut d path).fragment
  depth : (document.setText d path (Json.print v.toValue) none options).value.root.depth ≤
    min 127 options.maxDepth

/-- The document as it is written is read as the document, and the path is answered with the text of
`v` on a line. -/
def GivesBack (document : Document) (d : Char) (path : String) (v : Node)
    (options : ReadOptions) : Prop :=
  ∃ text, Text.ofBytes? (document.write none) = some text ∧
    (∀ source, Document.parse text source options = .ok document) ∧
    ∀ d', Query.answer (.compactJson d d') document.root [path] =
      ⟨Text.bytes ((Json.print v.toValue).toList ++ ['\n']), false, .ok ()⟩

section

variable {document : Document} {d : Char} {path : String} {v : Node} {options : ReadOptions}

theorem setText_of_parse {text : String} (hv : Inline.parse text options = .ok v) :
    document.setText d path text none options =
      (document.root.set d path v).map fun root => { document with root } := by
  rw [setText]
  simp only [hv, editWith]

theorem failure_setText_of_error {text : String} {e : Error}
    (he : Inline.parse text options = .error e) :
    (document.setText d path text none options).failure = some e := by
  rw [setText]
  simp only [he, editWith]
  rfl

namespace Sets

/-- The text is read as the value it was written for. -/
theorem setText_eq (h : document.Sets d path v options) (hv : v.depth ≤ 127) :
    document.setText d path (Json.print v.toValue) none options =
      (document.root.set d path v).map fun root => { document with root } := by
  have hparse := (h.value.printable hv).inlineParse_print h.foldCase
  rw [h.value.canon_eq_self] at hparse
  split at hparse
  · have hfailure := @failure_setText_of_error document d path options _ _ hparse
    rw [h.succeeds] at hfailure
    cases hfailure
  · exact setText_of_parse hparse

theorem root_plain (h : document.Sets d path v options) : document.root.Plain := by
  obtain ⟨text, source, options', -, hread⟩ := h.read
  have hroot := isRead_root hread
  exact ⟨hroot.wellFormed, h.root_free_float, free_time_root hread, hroot.free_userdata,
    h.root_noRepeats⟩

end Sets

theorem write_of_json (document : Document) {format : Option Format}
    (h : document.formatFor format = .json) :
    document.write format = Text.bytes (Json.pretty 0 document.root.toValue ++ ['\n']) := by
  have hlast := document.root.getLast?_render_json (.inl rfl)
  rw [write, h, if_pos (by simpa using hlast), Node.render, Json.printPretty,
    String.toList_ofList, Text.bytes_append]
  rfl

/-- A plain JSON document is read again as it was written. -/
theorem reload (hjson : document.dialect = .json) (hplain : document.root.Plain)
    (hcompound : document.root.isCompound = true) (hcase : options.foldCase = false)
    (hlevels : document.root.depth ≤ 127) (hmax : document.root.depth ≤ options.maxDepth) :
    ∃ text, Text.ofBytes? (document.write none) = some text ∧
      ∀ source, Document.parse text source options = .ok document := by
  have hprintable := hplain.printable hlevels
  have hgap : Json.Gap ['\n'] := Json.gap_newline 0
  have hformat : document.formatFor none = .json := by
    rw [formatFor, hjson]
    rfl
  refine ⟨_, document.write_of_json hformat ▸ Text.ofBytes?_bytes _, fun source => ?_⟩
  rw [hprintable.parse_of_spells hcase (Json.spells_pretty 0 _ hprintable.floatFree)
    (Node.Printable.opens_pretty hcompound) hgap source, hplain.canon_eq_self,
    if_neg (Nat.not_lt.2 hmax), ← hjson]

namespace Sets

theorem givesBack (h : document.Sets d path v options) (hv : v.depth ≤ 127) :
    (document.setText d path (Json.print v.toValue) none options).value.GivesBack d path v
      options := by
  obtain ⟨parent, hparent, hplace⟩ := h.place
  let edited : Document := { document with root := (document.root.set d path v).value }
  have hvalue : (document.setText d path (Json.print v.toValue) none options).value = edited := by
    rw [h.setText_eq hv]
    rfl
  have hdepth := h.depth
  rw [hvalue] at hdepth ⊢
  have hjson : edited.dialect = .json := h.json
  have hlookup : edited.root.lookup? d path = some v :=
    (Node.lookup?_set h.notRoot hparent hplace).2
  have hcompound : edited.root.isCompound = true := Node.isCompound_of_lookup? h.notRoot hlookup
  have hplain : edited.root.Plain := h.root_plain.set h.value d path
  obtain ⟨text, htext, hread⟩ := reload hjson hplain hcompound h.foldCase
    (Nat.le_trans hdepth (Nat.min_le_left ..)) (Nat.le_trans hdepth (Nat.min_le_right ..))
  refine ⟨text, htext, hread, fun d' => ?_⟩
  exact Query.answer_compactJson h.noBar h.trimmed hlookup

/-- The string that is set in the place of a value nested too deep is answered in quotes. -/
theorem not_givesBack (h : document.Sets d path v options) (hv : 127 < v.depth) :
    ¬ (document.setText d path (Json.print v.toValue) none options).value.GivesBack d path v
      options := by
  have hfloat : v.toValue.FloatFree := Node.floatFree_toValue h.value.free_float h.value.free_time
  have hdepth : Json.maxLevels < v.toValue.depth := by
    rw [Node.depth_toValue, h.value.canon_eq_self]
    exact hv
  obtain ⟨parent, hparent, hplace⟩ := h.place
  let text := Json.print v.toValue
  let edited : Document := { document with root := (document.root.set d path (.str text)).value }
  have hvalue : (document.setText d path text none options).value = edited := by
    rw [setText_of_parse (Inline.parse_print_of_deep hfloat hdepth options)]
    rfl
  have hlookup : edited.root.lookup? d path = some (.str text) :=
    (Node.lookup?_set h.notRoot hparent hplace).2
  rw [hvalue]
  rintro ⟨-, -, -, hanswer⟩
  have hquoted := @Query.answer_compactJson d d _ _ _ h.noBar h.trimmed hlookup
  rw [hanswer d, Query.Answer.mk.injEq] at hquoted
  have hsame : Json.compact v.toValue = Json.quote text.toList := by
    have happend := List.append_cancel_right (Text.bytes_injective hquoted.1)
    rwa [Json.print, Json.print, String.toList_ofList, String.toList_ofList] at happend
  obtain ⟨c, t, hs, hc⟩ := Json.opens_compact (Nat.zero_lt_of_lt hdepth)
  rw [hs, Json.quote, List.cons_append] at hsame
  rw [(List.cons.inj hsame).1] at hc
  revert hc
  decide

end Sets

/-- A value that is set is given back after the document has been written and read again, exactly if
it is nested at most 127 deep. -/
theorem set_value_is_given_back_iff (h : document.Sets d path v options) :
    (document.setText d path (Json.print v.toValue) none options).value.GivesBack d path v options ↔
      v.depth ≤ 127 :=
  ⟨fun hgiven => Nat.le_of_not_lt fun hv => h.not_givesBack hv hgiven, h.givesBack⟩

/-- A nested value set behind the last item of an array. -/
theorem set_value_is_given_back_in_array :
    let root : Node := .object ⟨[("a", .single (.array [.int 1]))]⟩
    let v : Node := .object ⟨[("k", .single (.array [.bool true, .str "\n"]))]⟩
    Sets ⟨root, .json⟩ '.' "a.1" v default ∧
      (setText ⟨root, .json⟩ '.' "a.1" (Json.print v.toValue) none default).value.GivesBack '.'
        "a.1" v default := by
  intro root v
  have hread : Document.parse (Json.print root.toValue) "file" default = .ok ⟨root, .json⟩ := by
    have hroot : root.Printable :=
      ⟨by decide +kernel, by decide +kernel, by decide +kernel, by decide +kernel⟩
    exact hroot.parse_print rfl rfl "file"
  have hparent : root.parentOf? '.' "a.1" = some (.array [.int 1]) := by
    have hsegments : Path.parentSegments '.' "a.1" = ["a"] := by decide +kernel
    rw [Node.parentOf?_eq_follow?, hsegments]
    rfl
  have hsets : Sets ⟨root, .json⟩ '.' "a.1" v default := {
    read := ⟨_, _, _, rfl, hread⟩
    json := rfl
    root_free_float := by decide +kernel
    root_noRepeats := by decide +kernel
    value := ⟨by decide +kernel, by decide +kernel, by decide +kernel, by decide +kernel,
      by decide +kernel⟩
    foldCase := rfl
    notRoot := by decide +kernel
    trimmed := by decide +kernel
    noBar := by decide
    succeeds := by decide +kernel
    place := ⟨_, hparent, 1, by decide +kernel, by decide⟩
    depth := by decide +kernel }
  exact ⟨hsets, (set_value_is_given_back_iff hsets).2 (by decide)⟩

end

/-- An empty array in `k` arrays. -/
def nested : Nat → Node
  | 0 => .array []
  | k + 1 => .array [nested k]

/-- The text of a value nested 128 deep is set, as a string, and as a string it is given back. -/
theorem deep_value_is_not_given_back :
    Sets ⟨.object ∅, .json⟩ '.' "a" (nested 127) default ∧
      ¬ (setText ⟨.object ∅, .json⟩ '.' "a" (Json.print (nested 127).toValue) none
        default).value.GivesBack '.' "a" (nested 127) default := by
  have hempty : Document.parse (String.ofList ['{', '}']) "file" default = .ok ⟨.object ∅, .json⟩ :=
    parse_of_spells (g := []) .emptyMap ⟨'{', _, rfl, .inr rfl⟩ (by decide) Json.gap_nil "file"
  have hparent : (Node.object ∅).parentOf? '.' "a" = some (.object ∅) := by
    have hsegments : Path.parentSegments '.' "a" = [] := by decide +kernel
    rw [Node.parentOf?_eq_follow?, hsegments]
    rfl
  have hplain : (nested 127).Plain :=
    ⟨by decide +kernel, by decide +kernel, by decide +kernel, by decide +kernel, by decide +kernel⟩
  have hset : setText ⟨.object ∅, .json⟩ '.' "a" (Json.print (nested 127).toValue) none default =
      .done ⟨.object ⟨[("a", .single (.str (Json.print (nested 127).toValue)))]⟩, .json⟩ := by
    have hroot (n : Node) :
        (Node.object ∅).set '.' "a" n = .done (.object ⟨[("a", .single n)]⟩) := by
      have hcut : Path.cut '.' "a" = ⟨none, "a"⟩ := by decide +kernel
      rw [Node.set_of_parentOf? (by rw [hcut]; rfl) hparent, Node.editParent, Node.updateParentOf?,
        hcut]
      rfl
    rw [setText_of_parse (Inline.parse_print_of_deep
      (Node.floatFree_toValue hplain.free_float hplain.free_time) (by decide +kernel) default),
      hroot]
    rfl
  have hsets : Sets ⟨.object ∅, .json⟩ '.' "a" (nested 127) default := {
    read := ⟨_, _, _, rfl, hempty⟩
    json := rfl
    root_free_float := by decide +kernel
    root_noRepeats := by decide +kernel
    value := hplain
    foldCase := rfl
    notRoot := by decide +kernel
    trimmed := by decide +kernel
    noBar := by decide
    succeeds := by rw [hset]; rfl
    place := ⟨_, hparent, trivial⟩
    depth := by rw [hset]; decide }
  exact ⟨hsets, hsets.not_givesBack (by decide +kernel)⟩

end Document

end ConfigTree

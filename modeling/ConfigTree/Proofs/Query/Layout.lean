import ConfigTree.Proofs.Json.Line
import ConfigTree.Proofs.Query.Events
import ConfigTree.Proofs.Request
import ConfigTree.Proofs.Text.Bytes
import ConfigTree.Query.Output

/-! How the answer to requests is laid out.  What the requests select is one list of items, each the
display path and the bytes of a record.  Labels, separators and the output delimiter are added to
the items afterwards and have no part in the selection. -/

namespace ConfigTree

theorem Node.getLast?_render_compactJson (n : Node) :
    (n.render .compactJson).getLast? ≠ some 10 := by
  intro h
  rw [render, Json.print, String.toList_ofList] at h
  exact Json.newline_not_mem_compact _ (List.mem_of_getLast? (Text.getLast?_of_getLast?_bytes h))

namespace Query

/-- A record without its label and without what sets it apart from others. -/
structure Item where
  path : String
  body : List UInt8
  deriving DecidableEq

/-- How records are labelled and set apart. -/
structure Presentation where
  showKeys : Bool
  noNewline : Bool
  outputDelimiter : Char

namespace Options

/-- The options with another presentation. -/
def present (o : Options) (p : Presentation) : Options :=
  { o with
    showKeys := p.showKeys
    noNewline := p.noNewline
    outputDelimiter := p.outputDelimiter }

/-- An item behind its label, if it has one and labels are asked for. -/
def entry (o : Options) (i : Item) : List UInt8 :=
  let label := o.label i.path ""
  if o.showKeys ∧ label ≠ "" then Text.bytes (label.toList ++ ['=']) ++ i.body else i.body

/-- Entries ended by newlines, or set apart by single spaces with one newline at the end. -/
def layout (o : Options) (items : List Item) : List UInt8 :=
  if o.noNewline then
    if items = [] then [] else [32].intercalate (items.map o.entry) ++ [10]
  else items.flatMap fun i => o.entry i ++ [10]

end Options

/-- The item of a record. -/
def Record.item (o : Options) : Record → Item
  | .node n path key =>
    ⟨path ++ key, if o.format.isStructured then (n.getD .null).render o.format
      else Text.bytes (o.nodeText (n.getD .null))⟩
  | .line path key text => ⟨path ++ key, Text.bytes text.toList⟩
  | .verbatim text => ⟨"", Text.bytes text.toList⟩

/-- What a request selects. -/
def items (o : Options) (root : Node) : Except Error Request → List Item
  | .ok request => (run o root request).records.map (Record.item o)
  | .error _ => []

/-- What requests select, each after the one before. -/
def selection (o : Options) (root : Node) (requests : List String) : List Item :=
  requests.flatMap fun text => items o root (Request.parse o.inputDelimiter text)

/-- The record is labelled and set apart from others. -/
def Record.IsFramed : Record → Prop
  | .node .. | .line .. => True
  | .verbatim _ => False

variable {o : Options} {root : Node}

/-! ## Records -/

theorem bytes_labelText_append (path key : String) (body : List UInt8) :
    Text.bytes (o.labelText path key) ++ body = o.entry ⟨path ++ key, body⟩ := by
  have hlabel : o.label (path ++ key) "" = o.label path key := by simp [Options.label]
  by_cases h : o.showKeys = true ∧ o.label path key ≠ ""
  · simp [Options.entry, Options.labelText, hlabel, h]
  · have hnone : (o.showKeys && !(o.label path key).isEmpty) = false := by
      simpa using h
    rw [Options.labelText, hnone, Options.entry, hlabel, if_neg h]
    rfl

theorem frame_eq (s : Output) (path key : String) (body : List UInt8) :
    o.frame s path key body false = (if o.noNewline && s.started then [32] else []) ++
      o.entry ⟨path ++ key, body⟩ ++ if o.noNewline then [] else [10] := by
  rw [Options.frame, Text.bytes_append, List.append_assoc (Text.bytes _), bytes_labelText_append,
    Bool.or_false, apply_ite Text.bytes]
  rfl

theorem write_eq (hformat : o.format = .text ∨ o.format = .compactJson) (s : Output) {r : Record}
    (hr : r.IsFramed) :
    o.write s r = ((if o.noNewline && s.started then [32] else []) ++ o.entry (r.item o) ++
      (if o.noNewline then [] else [10]), ⟨true, s.warned⟩) := by
  cases r with
  | node n path key =>
    rcases hformat with hf | hf
    · simp only [Options.write, Record.item, hf, frame_eq]
      rfl
    · have hlast : ((n.getD .null).render .compactJson).getLast? ≠ some 10 :=
        Node.getLast?_render_compactJson _
      have hended : (Format.compactJson == .messagePack ||
          ((n.getD .null).render .compactJson).getLast? == some Options.newline) = false := by
        simpa [Options.newline] using hlast
      have hwarned : (s.warned || o.runsTogether) = s.warned := by
        simp [Options.runsTogether, hf]
      simp only [Options.write, Record.item, hf, hended, hwarned, frame_eq]
      rfl
  | line path key text => exact Prod.ext (frame_eq ..) rfl
  | verbatim text => cases hr

/-! ## Layout -/

section

variable {s : Output} {records : List Record}

theorem writeAll_snd (hformat : o.format = .text ∨ o.format = .compactJson)
    (hframed : ∀ r ∈ records, r.IsFramed) :
    (o.writeAll s records).2 = ⟨s.started || !records.isEmpty, s.warned⟩ := by
  induction records generalizing s with
  | nil => simp [Options.writeAll]
  | cons r rs ih =>
    simp only [Options.writeAll, write_eq hformat s (hframed r List.mem_cons_self),
      ih fun r hr => hframed r (List.mem_cons_of_mem _ hr)]
    simp

theorem writeAll_ended (hformat : o.format = .text ∨ o.format = .compactJson)
    (hframed : ∀ r ∈ records, r.IsFramed) (h : o.noNewline = false) :
    (o.writeAll s records).1 =
      (records.map (Record.item o)).flatMap fun i => o.entry i ++ [10] := by
  induction records generalizing s with
  | nil => rfl
  | cons r rs ih =>
    simp only [Options.writeAll, write_eq hformat s (hframed r List.mem_cons_self),
      ih fun r hr => hframed r (List.mem_cons_of_mem _ hr)]
    simp [h]

/-- After a first record every further one has a space in front. -/
theorem writeAll_spaced (hformat : o.format = .text ∨ o.format = .compactJson)
    (hframed : ∀ r ∈ records, r.IsFramed) (h : o.noNewline = true) (hs : s.started = true) :
    (o.writeAll s records).1 = (records.map (Record.item o)).flatMap fun i => [32] ++ o.entry i := by
  induction records generalizing s with
  | nil => rfl
  | cons r rs ih =>
    simp only [Options.writeAll, write_eq hformat s (hframed r List.mem_cons_self)]
    rw [ih (fun r hr => hframed r (List.mem_cons_of_mem _ hr)) rfl]
    simp [h, hs]

theorem intercalate_cons {α : Type} (separator first : List α) (rest : List (List α)) :
    separator.intercalate (first :: rest) = first ++ rest.flatMap (separator ++ ·) := by
  induction rest generalizing first with
  | nil => simp
  | cons second rest ih => rw [List.intercalate_cons_cons, ih, List.flatMap_cons]; simp

theorem writeAll_start (hformat : o.format = .text ∨ o.format = .compactJson)
    (hframed : ∀ r ∈ records, r.IsFramed) :
    (o.writeAll .start records).1 ++ o.finish (o.writeAll .start records).2 =
      o.layout (records.map (Record.item o)) := by
  rw [writeAll_snd hformat hframed, Options.finish, Options.layout]
  cases h : o.noNewline with
  | false => simp [writeAll_ended hformat hframed h]
  | true =>
    cases records with
    | nil => rfl
    | cons r rs =>
      have hrest := writeAll_spaced (s := ⟨true, false⟩) hformat
        (fun r hr => hframed r (List.mem_cons_of_mem _ hr)) h rfl
      simp only [Options.writeAll, write_eq hformat .start (hframed r List.mem_cons_self)]
      simp [h, Output.start, hrest, intercalate_cons, List.flatMap_map, Options.newline]

end

/-- A run without an error lays out the items of its records. -/
theorem answer_of_ok (hformat : o.format = .text ∨ o.format = .compactJson) {t : Trace Unit}
    (hframed : ∀ r ∈ t.records, r.IsFramed) (h : t.result = .ok ()) :
    t.answer o = ⟨o.layout (t.records.map (Record.item o)), false, .ok ()⟩ := by
  rw [Trace.answer, h, ← writeAll_start hformat hframed]
  simp only [writeAll_snd hformat hframed]
  rfl

/-! ## Requests -/

theorem records_forM {α : Type} {f : α → Trace Unit} {as : List α}
    (h : (as.forM f).result = .ok ()) : (as.forM f).records = as.flatMap fun a => (f a).records := by
  induction as with
  | nil => rfl
  | cons a as ih =>
    obtain ⟨-, -, hrest, hrecords⟩ := Trace.exists_of_bind_ok (t := f a) h
    rw [List.flatMap_cons, ← ih hrest]
    exact hrecords

theorem selection_of_parse {requests : List String} {parsed : List Request}
    (h : requests.mapM (Request.parse o.inputDelimiter) = .ok parsed) :
    selection o root requests =
      parsed.flatMap fun request => (run o root request).records.map (Record.item o) := by
  calc
    selection o root requests =
        (requests.map (Request.parse o.inputDelimiter)).flatMap (items o root) := by
      rw [selection, List.flatMap_map]
    _ = (parsed.map .ok).flatMap (items o root) := by rw [map_of_mapM h]
    _ = _ := List.flatMap_map ..

/-- Only `dump` puts out what is no record. -/
theorem isFramed_of_mem_run {request : Request} (hdump : .dump ∉ request.chain) {r : Record}
    (hr : r ∈ (run o root request).records) : r.IsFramed := by
  let q : Event → Prop := fun e => ∀ r, e.record? = some r → r.IsFramed
  have hnode (n : Option Node) (path key : String) : q (.node n path key) := by
    rintro r ⟨⟩
    trivial
  have hreports : ∀ command ∈ request.chain, ∀ p, True →
      ∀ e ∈ reports o.inputDelimiter p command, q e := by
    intro command hc p _ e he
    cases command with
    | length | type =>
      cases List.mem_singleton.1 he
      rintro r ⟨⟩
      trivial
    | keys | values =>
      obtain ⟨c, -, rfl⟩ := List.mem_map.1 he
      rintro r ⟨⟩
      trivial
    | dump => exact absurd hc hdump
    | _ => cases he
  have hstops : ∀ command ∈ request.chain, ∀ p, True →
      ∀ s ∈ stops o.inputDelimiter o.expand p command, s.Keeps q fun _ => True := by
    intro command _ p _ s hs
    cases command with
    | each | iterate | select paths =>
      obtain ⟨c, -, rfl⟩ := List.mem_map.1 hs
      exact ⟨hnode _ _ _, trivial⟩
    | recurse =>
      rw [stops] at hs
      cases hp : p.node with
      | none =>
        rw [hp] at hs
        cases hs
      | some n =>
        rw [hp] at hs
        refine forall_preorder (fun _ _ => True) (fun depth r h => by cases h)
          (fun path n e he => ?_) (fun path depth n _ => ⟨hnode _ _ _, trivial⟩)
          (fun _ _ _ _ _ => trivial) trivial s hs
        obtain ⟨m, key, rfl⟩ := exists_of_mem_asides he
        exact hnode _ _ _
    | _ => cases hs
  rw [run_eq_perform] at hr
  obtain ⟨e, he, hr⟩ := exists_of_mem_records hr
  rw [requestEvents] at he
  split at he
  · cases List.mem_singleton.1 he
    exact hnode _ _ _ r hr
  · exact forall_events (fun _ => True) (fun depth r h => by cases h) hreports hstops trivial e he r hr

/-! ## Presentation -/

section

variable (p : Presentation)

@[simp] theorem item_present : Record.item (o.present p) = Record.item o := by
  funext r
  cases r with
  | node n path key => cases hn : n.getD .null <;> simp only [Record.item, hn] <;> rfl
  | _ => rfl

@[simp] theorem run_present : run (o.present p) root = run o root := by
  funext request
  rw [run_eq_perform, run_eq_perform]
  rfl

theorem answer_present (requests : List String) :
    answer (o.present p) root requests = match parseAll o requests with
      | .ok parsed => Trace.answer (o.present p) (parsed.forM (run o root))
      | .error e => ⟨[], false, .error e⟩ := by
  rw [answer, run_present]
  rfl

end

/-- Labels, separators and the output delimiter do not change what is selected: whatever they are,
requests fail with one error or lay out one list of items, which is the items of each request in
turn. -/
theorem answer_lays_out_selection (hformat : o.format = .text ∨ o.format = .compactJson)
    {requests : List String}
    (hdump : ∀ text ∈ requests, ∀ request, Request.parse o.inputDelimiter text = .ok request →
      .dump ∉ request.chain) :
    ((∃ e, ∀ p, (answer (o.present p) root requests).result = .error e) ∨
      ∀ p, answer (o.present p) root requests =
        ⟨(o.present p).layout (selection o root requests), false, .ok ()⟩) ∧
    ∀ before after, selection o root (before ++ after) =
      selection o root before ++ selection o root after := by
  refine ⟨?_, fun before after => List.flatMap_append⟩
  simp only [answer_present]
  cases hparse : parseAll o requests with
  | error e => exact .inl ⟨e, fun _ => rfl⟩
  | ok parsed =>
    have hmapM : requests.mapM (Request.parse o.inputDelimiter) = .ok parsed := by
      rw [parseAll] at hparse
      split at hparse
      · cases hparse
      · exact hparse
    cases hresult : (parsed.forM (run o root)).result with
    | error e => exact .inl ⟨e, fun p => by simp only [Trace.answer, hresult]⟩
    | ok _ =>
      have hrecords := records_forM hresult
      have hframed : ∀ r ∈ (parsed.forM (run o root)).records, r.IsFramed := by
        rw [hrecords]
        intro r hr
        obtain ⟨request, hrequest, hr⟩ := List.mem_flatMap.1 hr
        have hmem : .ok request ∈ requests.map (Request.parse o.inputDelimiter) := by
          rw [map_of_mapM hmapM]
          exact List.mem_map_of_mem hrequest
        obtain ⟨text, htext, hparsed⟩ := List.mem_map.1 hmem
        exact isFramed_of_mem_run (hdump text htext request hparsed) hr
      refine .inr fun p => ?_
      simp only
      rw [answer_of_ok (o := o.present p) hformat hframed hresult, item_present, hrecords,
        List.map_flatMap, ← selection_of_parse hmapM]

/-- Three records of two requests, in whatever way they are presented. -/
theorem answer_lays_out_selection_of_two_requests :
    let root : Node := .object
      ⟨[("a", .single (.array [.int 1, .int 2])), ("b", .single (.str "x"))]⟩
    let requests := [".a|each", ".b"]
    let items : List Item := [⟨"a.0", Text.bytes ['1']⟩, ⟨"a.1", Text.bytes ['2']⟩,
      ⟨".b", Text.bytes ['"', 'x', '"']⟩]
    (∀ text ∈ requests, ∀ request, Request.parse '.' text = .ok request →
      .dump ∉ request.chain) ∧
    (∀ p, answer ((default : Options).present p) root requests =
      ⟨((default : Options).present p).layout items, false, .ok ()⟩) ∧
    selection default root (requests ++ requests) = items ++ items := by
  intro root requests items
  have hdump : ∀ text ∈ requests, ∀ request, Request.parse '.' text = .ok request →
      .dump ∉ request.chain := by
    intro text htext request hrequest
    have heach : Request.parse '.' ".a|each" = .ok ⟨".a", [.each]⟩ := rfl
    have hpath : Request.parse '.' ".b" = .ok ⟨".b", []⟩ := rfl
    simp only [requests, List.mem_cons, List.not_mem_nil, or_false] at htext
    rcases htext with rfl | rfl
    · cases heach.symm.trans hrequest
      decide
    · cases hpath.symm.trans hrequest
      decide
  have hitems : selection default root requests = items := by decide +kernel
  have hsucceeds : (answer default root requests).result.toBool = true := by decide +kernel
  obtain ⟨⟨e, he⟩ | hp, happend⟩ := answer_lays_out_selection (o := default) (.inl rfl) hdump
  · have hfails : (answer default root requests).result = .error e := he ⟨false, false, '.'⟩
    rw [hfails] at hsucceeds
    cases hsucceeds
  · rw [hitems] at hp
    refine ⟨hdump, hp, ?_⟩
    rw [happend, hitems]

end Query

end ConfigTree

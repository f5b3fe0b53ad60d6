import ConfigTree.ConfigText
import ConfigTree.Proofs.Json.Scalar
import ConfigTree.Proofs.Node.Everywhere
import ConfigTree.Proofs.Text.Bytes

/-! Config text tells trees apart.  Keys and scalars are words, which end where a character comes
that no bare word has; and behind the indent of a block stands either one space more or the bracket
that closes it.  So a value can be split off the front of any text it starts. -/

namespace ConfigTree.ConfigText

/-! ## Words -/

/-- What is written for a key or a scalar: a bare word or a quoted string. -/
inductive IsWord : List Char → Prop
  | bare {w : List Char} (h : isBare w = true) : IsWord w
  | quoted (s : List Char) : IsWord (Json.quote s)

section

variable {c d : Char} {v w x y : List Char}

theorem isBare_iff : isBare w = true ↔ w ≠ [] ∧ ∀ c ∈ w, isBareChar c = true := by
  simp [isBare]

theorem IsWord.exists_cons (h : IsWord w) :
    ∃ c t, w = c :: t ∧ (isBareChar c = true ∨ c = '"') := by
  cases h with
  | bare h =>
    obtain ⟨hne, hall⟩ := isBare_iff.1 h
    obtain ⟨c, t, rfl⟩ := List.exists_cons_of_ne_nil hne
    exact ⟨c, t, rfl, .inl (hall c List.mem_cons_self)⟩
  | quoted s => exact ⟨'"', _, rfl, .inr rfl⟩

/-- Nothing that starts like neither kind of word starts with one. -/
theorem IsWord.append_ne (h : IsWord w) (hc : isBareChar c = false) (hquote : c ≠ '"') :
    w ++ x ≠ c :: y := by
  obtain ⟨d, t, rfl, hd⟩ := h.exists_cons
  intro heq
  cases (List.cons.inj heq).1
  rcases hd with hd | hd
  · rw [hc] at hd
    cases hd
  · exact hquote hd

theorem takeWhile_bare (h : isBare w = true) (hc : isBareChar c = false) :
    (w ++ c :: x).takeWhile isBareChar = w := by
  rw [List.takeWhile_append_of_pos (isBare_iff.1 h).2, List.takeWhile_cons, if_neg (by simp [hc]),
    List.append_nil]

theorem bare_append_ne_quote (h : isBare w = true) (s : List Char) :
    w ++ x ≠ Json.quote s ++ y := by
  obtain ⟨hne, hall⟩ := isBare_iff.1 h
  obtain ⟨c, t, rfl⟩ := List.exists_cons_of_ne_nil hne
  intro heq
  cases (List.cons.inj heq).1
  exact absurd (hall _ List.mem_cons_self) (by decide)

theorem quote_append_inj {s t : List Char} (h : Json.quote s ++ x = Json.quote t ++ y) : s = t := by
  simp only [Json.quote, List.cons_append, List.append_assoc, List.nil_append] at h
  have hread := congrArg (Json.stringBody .nothing) (List.cons.inj h).2
  rw [Json.stringBody_quoted, Json.stringBody_quoted] at hread
  cases hread
  rfl

/-- A word ends before the first character that no bare word has. -/
theorem IsWord.append_inj (hw : IsWord w) (hv : IsWord v) (hc : isBareChar c = false)
    (hd : isBareChar d = false) (h : w ++ c :: x = v ++ d :: y) : w = v ∧ c :: x = d :: y := by
  have hword : w = v := by
    cases hw with
    | bare hw =>
      cases hv with
      | bare hv => rw [← takeWhile_bare hw hc, h, takeWhile_bare hv hd]
      | quoted s => exact absurd h (bare_append_ne_quote hw s)
    | quoted s =>
      cases hv with
      | bare hv => exact absurd h.symm (bare_append_ne_quote hv s)
      | quoted t => rw [quote_append_inj h]
  subst hword
  exact ⟨rfl, List.append_cancel_left h⟩

end

/-! ## Keys and scalars -/

theorem isWord_key (k : String) : IsWord (key k) := by
  unfold key
  split
  · next h => exact .bare h
  · exact .quoted k.toList

theorem key_injective {k l : String} (h : key k = key l) : k = l := by
  unfold key at h
  split at h <;> split at h
  · exact String.toList_inj.1 h
  · next hk _ => exact absurd (congrArg (· ++ []) h) (bare_append_ne_quote hk _)
  · next _ hl => exact absurd (congrArg (· ++ []) h.symm) (bare_append_ne_quote hl _)
  · exact String.toList_inj.1 (quote_append_inj (congrArg (· ++ []) h))

/-- A well-formed tree without floating-point numbers, durations and opaque data. -/
structure Legible (n : Node) : Prop where
  wellFormed : n.WellFormed
  floatFree : n.Free .float
  timeFree : n.Free .time
  userdataFree : n.Free .userdata

instance : DecidablePred Legible := fun n =>
  decidable_of_iff (n.WellFormed ∧ n.Free .float ∧ n.Free .time ∧ n.Free .userdata)
    ⟨fun ⟨h, hfloat, htime, hdata⟩ => ⟨h, hfloat, htime, hdata⟩,
      fun ⟨h, hfloat, htime, hdata⟩ => ⟨h, hfloat, htime, hdata⟩⟩

section

variable {n m : Node}

theorem Legible.inner (h : Legible n) (hm : m ∈ n.inner) : Legible m where
  wellFormed := h.wellFormed.inner hm
  floatFree := h.floatFree.inner hm
  timeFree := h.timeFree.inner hm
  userdataFree := h.userdataFree.inner hm

/-- The text of a scalar is a word that stands for it as a literal. -/
theorem Legible.scalar (h : Legible n) (hn : n.isCompound = false) :
    IsWord (scalar n) ∧ Literal.parse (String.ofList (ConfigText.scalar n)) = n := by
  cases n with
  | null => exact ⟨.bare rfl, rfl⟩
  | bool b => cases b <;> exact ⟨.bare rfl, rfl⟩
  | int i =>
    refine ⟨.bare (isBare_iff.2 ⟨Text.ofInt_ne_nil _, fun c hc => ?_⟩), Literal.parse_ofInt i⟩
    exact Text.forall_isIntegerChar (p := fun c => isBareChar c = true) (by decide)
      (Text.isIntegerChar_of_mem_ofInt hc)
  | str s => exact ⟨.quoted s.toList, Literal.parse_quote s⟩
  | float x => exact absurd rfl h.floatFree.here
  | time x => exact absurd rfl h.timeFree.here
  | userdata tag => exact absurd rfl h.userdataFree.here
  | array items => cases hn
  | object o => cases hn

theorem scalar_injective (hn : Legible n) (hm : Legible m) (hscalar : n.isCompound = false)
    (hscalar' : m.isCompound = false) (h : scalar n = scalar m) : n = m := by
  rw [← (hn.scalar hscalar).2, h, (hm.scalar hscalar').2]

end

/-! ## Blocks -/

theorem value_of_scalar {n : Node} (h : n.isCompound = false) (level : Nat) :
    value level n = scalar n := by
  cases n with
  | array items => cases h
  | object o => cases h
  | _ => rfl

/-- What stands behind a key. -/
def assigned (level : Nat) (n : Node) : List Char :=
  if n.isCompound then value level n ++ ['\n'] else '=' :: ' ' :: (value level n ++ [';', '\n'])

def memberText (level : Nat) (p : String × Node) : List Char :=
  indent level ++ (key p.1 ++ ' ' :: assigned level p.2)

def itemText (level : Nat) (n : Node) : List Char := indent level ++ (value level n ++ [',', '\n'])

theorem line_eq (level : Nat) (k : String) (n : Node) :
    line level k n.kind (value level n) = memberText level (k, n) := by
  rw [line, memberText, assigned, Node.isCompound]
  split <;> simp

theorem repeats_eq (level : Nat) (k : String) (ns : List Node) :
    repeats level k ns = (ns.map (k, ·)).flatMap (memberText level) := by
  induction ns with
  | nil => rfl
  | cons n ns ih => rw [repeats, line_eq, ih, List.map_cons, List.flatMap_cons]

theorem members_eq (level : Nat) (es : List (String × Member Node)) :
    members level es = (Multimap.mk es).toPairs.flatMap (memberText level) := by
  rw [Multimap.toPairs, List.flatMap_assoc]
  induction es with
  | nil => rfl
  | cons e es ih =>
    obtain ⟨k, n | ns⟩ := e
    · rw [members, line_eq, ih, List.flatMap_cons]
      simp
    · rw [members, repeats_eq, ih, List.flatMap_cons]
      rfl

theorem items_eq (level : Nat) (ns : List Node) :
    items level ns = ns.flatMap (itemText level) := by
  induction ns with
  | nil => rfl
  | cons n ns ih => simp [items, ih, itemText]

theorem value_object_append (level : Nat) (o : Multimap Node) (x : List Char) :
    value level (.object o) ++ x =
      '{' :: '\n' :: (o.toPairs.flatMap (memberText (level + 1)) ++
        (indent level ++ '}' :: x)) := by
  obtain ⟨es⟩ := o
  rw [← members_eq]
  simp [value]

theorem value_array_append (level : Nat) {items : List Node} (h : items ≠ []) (x : List Char) :
    value level (.array items) ++ x =
      '[' :: '\n' :: (items.flatMap (itemText (level + 1)) ++ (indent level ++ ']' :: x)) := by
  obtain ⟨n, ns, rfl⟩ := List.exists_cons_of_ne_nil h
  rw [← items_eq]
  simp [value]

theorem indent_append_ne {c : Char} (h : c ≠ ' ') (level : Nat) (x y : List Char) :
    indent (level + 1) ++ x ≠ indent level ++ c :: y := by
  have hindent : indent (level + 1) = indent level ++ ' ' :: List.replicate 3 ' ' := by
    rw [indent, Nat.mul_succ, ← List.replicate_append_replicate]
    rfl
  rw [hindent, List.append_assoc]
  exact fun heq => h (List.cons.inj (List.append_cancel_left heq)).1.symm

/-! ## Values -/

section

variable {n m : Node} {level : Nat} {x y : List Char}

/-- The bracket that opens an object or an array. -/
def opening (n : Node) : Char := if n.kind = .object then '{' else '['

theorem value_head (hn : n.isCompound = true) (level : Nat) (x : List Char) :
    ∃ y, value level n ++ x = opening n :: y := by
  cases n with
  | array items => cases items <;> exact ⟨_, rfl⟩
  | object o => exact ⟨_, value_object_append level o x⟩
  | _ => cases hn

theorem kind_eq_of_opening_eq (hn : n.isCompound = true) (hm : m.isCompound = true)
    (h : opening n = opening m) : n.kind = m.kind := by
  unfold opening at h
  rcases Node.kind_of_isCompound hn with hkind | hkind <;>
    rcases Node.kind_of_isCompound hm with hkind' | hkind' <;> rw [hkind, hkind'] at h ⊢
  · exact absurd h (by decide)
  · exact absurd h (by decide)

/-- The first character of its text tells an object and an array from anything else. -/
theorem kind_eq_of_value_append (hn : Legible n) (hm : m.isCompound = true)
    (h : value level n ++ x = value level m ++ y) : n.kind = m.kind := by
  obtain ⟨z, hz⟩ := value_head hm level y
  rw [hz] at h
  by_cases hcompound : n.isCompound = true
  · obtain ⟨z', hz'⟩ := value_head hcompound level x
    exact kind_eq_of_opening_eq hcompound hm (List.cons.inj (hz'.symm.trans h)).1
  · rw [Bool.not_eq_true] at hcompound
    rw [value_of_scalar hcompound] at h
    refine absurd h ((hn.scalar hcompound).1.append_ne ?_ ?_) <;>
      (unfold opening; split <;> decide)

/-- The text of the node, wherever it stands and ends, is that of no other node. -/
def Splits (n : Node) : Prop :=
  ∀ ⦃level : Nat⦄ ⦃m : Node⦄ ⦃c d : Char⦄ ⦃x y : List Char⦄, Legible m → isBareChar c = false →
    isBareChar d = false → value level n ++ c :: x = value level m ++ d :: y →
      n = m ∧ c :: x = d :: y

theorem Splits.itemText_append_inj (hn : Splits n) (hm : Legible m)
    (h : itemText level n ++ x = itemText level m ++ y) : n = m ∧ x = y := by
  simp only [itemText, List.append_assoc, List.append_cancel_left_eq, List.cons_append,
    List.nil_append] at h
  obtain ⟨rfl, hrest⟩ := hn hm (by decide) (by decide) h
  exact ⟨rfl, (List.cons.inj (List.cons.inj hrest).2).2⟩

theorem value_append_ne_assignment (hn : n.isCompound = true) :
    value level n ++ x ≠ '=' :: y := by
  obtain ⟨z, hz⟩ := value_head hn level x
  rw [hz, opening]
  split <;> exact fun heq => absurd (List.cons.inj heq).1 (by decide)

theorem Splits.assigned_append_inj (hn : Splits n) (hm : Legible m)
    (h : assigned level n ++ x = assigned level m ++ y) : n = m ∧ x = y := by
  unfold assigned at h
  split at h <;> split at h
  · rw [List.append_assoc, List.append_assoc] at h
    obtain ⟨rfl, hrest⟩ := hn hm (by decide) (by decide) h
    exact ⟨rfl, (List.cons.inj hrest).2⟩
  · next hcompound _ =>
    rw [List.append_assoc] at h
    exact absurd h (value_append_ne_assignment hcompound)
  · next _ hcompound =>
    rw [List.append_assoc (value level m)] at h
    exact absurd h.symm (value_append_ne_assignment hcompound)
  · simp only [List.cons_append, List.append_assoc, List.cons.injEq, true_and] at h
    obtain ⟨rfl, hrest⟩ := hn hm (by decide) (by decide) h
    exact ⟨rfl, (List.cons.inj (List.cons.inj hrest).2).2⟩

theorem Splits.memberText_append_inj {k l : String} (hn : Splits n) (hm : Legible m)
    (h : memberText level (k, n) ++ x = memberText level (l, m) ++ y) :
    (k, n) = (l, m) ∧ x = y := by
  simp only [memberText, List.append_assoc, List.append_cancel_left_eq, List.cons_append] at h
  obtain ⟨hkey, hrest⟩ := (isWord_key k).append_inj (isWord_key l) (by decide) (by decide) h
  obtain ⟨rfl, hend⟩ := hn.assigned_append_inj hm (List.cons.inj hrest).2
  exact ⟨Prod.ext (key_injective hkey) rfl, hend⟩

theorem Legible.toPairs_append_inj {o o' : Multimap Node} (ho' : Legible (.object o'))
    (ih : ∀ n ∈ o.values, Splits n)
    (hx : ∀ p ∈ o'.toPairs, ∀ z, memberText level p ++ z ≠ x)
    (hy : ∀ p ∈ o.toPairs, ∀ z, memberText level p ++ z ≠ y)
    (h : o.toPairs.flatMap (memberText level) ++ x = o'.toPairs.flatMap (memberText level) ++ y) :
    o.toPairs = o'.toPairs ∧ x = y := by
  refine Text.flatMap_append_inj (fun p hp q hq x y heq => ?_) hx hy h
  exact (ih p.2 (Multimap.mem_values_of_mem_toPairs hp)).memberText_append_inj
    (ho'.inner (Multimap.mem_values_of_mem_toPairs hq)) heq

theorem memberText_append_ne {c : Char} (h : c ≠ ' ') (p : String × Node) (z : List Char) :
    memberText (level + 1) p ++ z ≠ indent level ++ c :: y := by
  rw [memberText, List.append_assoc]
  exact indent_append_ne h level _ y

theorem itemText_append_ne {c : Char} (h : c ≠ ' ') (n : Node) (z : List Char) :
    itemText (level + 1) n ++ z ≠ indent level ++ c :: y := by
  rw [itemText, List.append_assoc]
  exact indent_append_ne h level _ y

theorem splits_scalar (h : Legible n) (hn : n.isCompound = false) : Splits n := by
  intro level m c d x y hm hc hd heq
  have hscalar : m.isCompound = false := by
    refine Bool.eq_false_iff.2 fun hcompound => ?_
    have hkind := kind_eq_of_value_append h hcompound heq
    rw [Node.isCompound, hkind, ← Node.isCompound, hcompound] at hn
    cases hn
  rw [value_of_scalar hn, value_of_scalar hscalar] at heq
  obtain ⟨hword, hrest⟩ := (h.scalar hn).1.append_inj (hm.scalar hscalar).1 hc hd heq
  exact ⟨scalar_injective h hm hn hscalar hword, hrest⟩

theorem splits_object {o : Multimap Node} (h : Legible (.object o))
    (ih : ∀ n ∈ o.values, Splits n) : Splits (.object o) := by
  intro level m c d x y hm hc hd heq
  obtain ⟨o', rfl⟩ := Node.exists_object_of_kind (kind_eq_of_value_append hm rfl heq.symm)
  rw [value_object_append, value_object_append] at heq
  obtain ⟨hpairs, hrest⟩ := hm.toPairs_append_inj ih
    (fun p _ => memberText_append_ne (by decide) p) (fun p _ => memberText_append_ne (by decide) p)
    (List.cons.inj (List.cons.inj heq).2).2
  have ho : o = o' := h.wellFormed.here.eq_of_toPairs_eq hm.wellFormed.here hpairs
  exact ⟨congrArg Node.object ho, (List.cons.inj (List.append_cancel_left hrest)).2⟩

theorem splits_array {items : List Node} (ih : ∀ n ∈ items, Splits n) :
    Splits (.array items) := by
  intro level m c d x y hm hc hd heq
  obtain ⟨items', rfl⟩ := Node.exists_array_of_kind (kind_eq_of_value_append hm rfl heq.symm)
  by_cases hempty : items = [] ∨ items' = []
  -- Behind the bracket stands another if the array is empty, and a newline if it is not.
  · cases items with
    | nil =>
      cases items' with
      | nil => exact ⟨rfl, (List.cons.inj (List.cons.inj heq).2).2⟩
      | cons n ns => exact absurd (List.cons.inj (List.cons.inj heq).2).1 (by decide)
    | cons n ns =>
      cases items' with
      | nil => exact absurd (List.cons.inj (List.cons.inj heq).2).1 (by decide)
      | cons m ms => simp at hempty
  · rw [not_or] at hempty
    rw [value_array_append level hempty.1, value_array_append level hempty.2] at heq
    obtain ⟨hitems, hrest⟩ := Text.flatMap_append_inj
      (fun n hn m hmem x y => (ih n hn).itemText_append_inj (hm.inner hmem))
      (fun n _ => itemText_append_ne (by decide) n) (fun n _ => itemText_append_ne (by decide) n)
      (List.cons.inj (List.cons.inj heq).2).2
    exact ⟨congrArg Node.array hitems, (List.cons.inj (List.append_cancel_left hrest)).2⟩

theorem splits (n : Node) (h : Legible n) : Splits n := by
  induction n using Node.inductInner with
  | step n ih =>
    have ih : ∀ m ∈ n.inner, Splits m := fun m hm => ih m hm (h.inner hm)
    by_cases hn : n.isCompound = true
    · cases n with
      | object o => exact splits_object h ih
      | array items => exact splits_array ih
      | _ => cases hn
    · exact splits_scalar h (Bool.not_eq_true _ ▸ hn)

end

/-! ## Documents -/

section

variable {n : Node} {o o' : Multimap Node}

theorem print_object (o : Multimap Node) :
    print (.object o) = String.ofList (o.toPairs.flatMap (memberText 0)) := by
  obtain ⟨es⟩ := o
  rw [print, members_eq]

theorem print_of_kind_ne (h : n.kind ≠ .object) :
    print n = String.ofList (value 0 n ++ ['\n']) := by
  cases n with
  | object o => exact absurd rfl h
  | _ => rfl

theorem print_object_inj (ho : Legible (.object o)) (ho' : Legible (.object o'))
    (h : print (.object o) = print (.object o')) : o = o' := by
  rw [print_object, print_object, String.ofList_inj] at h
  have hne (p : String × Node) (z : List Char) : memberText 0 p ++ z ≠ [] := by
    simp [memberText]
  have hpairs := ho'.toPairs_append_inj (fun n hn => splits n (ho.inner hn)) (fun p _ => hne p)
    (fun p _ => hne p) (congrArg (· ++ []) h)
  exact ho.wellFormed.here.eq_of_toPairs_eq ho'.wellFormed.here hpairs.1

/-- The first line of an object starts with a key, behind which no line ends. -/
theorem print_object_ne (hn : Legible n) (hkind : n.kind ≠ .object) :
    print (.object o) ≠ print n := by
  rw [print_object, print_of_kind_ne hkind, Ne, String.ofList_inj]
  intro h
  cases hpairs : o.toPairs with
  | nil =>
    rw [hpairs] at h
    exact List.append_ne_nil_of_right_ne_nil _ (List.cons_ne_nil _ _) h.symm
  | cons p ps =>
    rw [hpairs, List.flatMap_cons, memberText, List.append_assoc, List.append_assoc] at h
    have hword := isWord_key p.1
    by_cases hcompound : n.isCompound = true
    · obtain ⟨z, hz⟩ := value_head hcompound 0 ['\n']
      rw [opening, if_neg hkind] at hz
      exact hword.append_ne (by decide) (by decide) (h.trans hz)
    · rw [Bool.not_eq_true] at hcompound
      rw [value_of_scalar hcompound] at h
      have hrest := (hword.append_inj (hn.scalar hcompound).1 (by decide) (by decide) h).2
      exact absurd (List.cons.inj hrest).1 (by decide)

end

/-- Trees without floating-point numbers, durations and opaque data are told apart by their config
text. -/
theorem print_injective (a b : Node) (ha : Legible a) (hb : Legible b)
    (h : print a = print b) : a = b := by
  by_cases hkind : a.kind = .object
  · obtain ⟨o, rfl⟩ := Node.exists_object_of_kind hkind
    by_cases hkind' : b.kind = .object
    · obtain ⟨o', rfl⟩ := Node.exists_object_of_kind hkind'
      rw [print_object_inj ha hb h]
    · exact absurd h (print_object_ne hb hkind')
  · by_cases hkind' : b.kind = .object
    · obtain ⟨o, rfl⟩ := Node.exists_object_of_kind hkind'
      exact absurd h.symm (print_object_ne ha hkind)
    · rw [print_of_kind_ne hkind, print_of_kind_ne hkind', String.ofList_inj] at h
      exact (splits a ha hb (by decide) (by decide) h).1

/-- The values of a repeated key are written like no array of them; and the text of a number is that
of no string. -/
theorem print_injective_at_repeated_key :
    let gathered : Node := .object (.ofPairs [("a b", .str "1"), ("c", .array []), ("a b", .int 1)])
    let repeated : Node := .object
      ⟨[("a b", .repeated [.str "1", .int 1]), ("c", .single (.array []))]⟩
    let listed : Node := .object
      ⟨[("a b", .single (.array [.str "1", .int 1])), ("c", .single (.array []))]⟩
    let swapped : Node := .object
      ⟨[("a b", .repeated [.int 1, .str "1"]), ("c", .single (.array []))]⟩
    print gathered = print repeated ∧ gathered = repeated ∧ print repeated ≠ print listed ∧
      print repeated ≠ print swapped := by
  intro gathered repeated listed swapped
  have hrepeated : Legible repeated := by decide +kernel
  have hsame : print gathered = print repeated := by decide +kernel
  refine ⟨hsame, print_injective _ _ (by decide +kernel) hrepeated hsame, fun h => ?_, fun h => ?_⟩
  · have heq := print_injective _ _ hrepeated (by decide +kernel) h
    simp [repeated, listed] at heq
  · have heq := print_injective _ _ hrepeated (by decide +kernel) h
    simp [repeated, swapped] at heq

end ConfigTree.ConfigText

import ConfigTree.Multimap.Operation
import ConfigTree.Proofs.Multimap
import Mathlib.Data.List.Induction
import Mathlib.Data.List.Nodup

/-! A multimap is no more than a list of keys in the order they came, each with its values: the
listing.  Every operation has a plain meaning there, in terms of whole entries and without a search
for the first that fits, and a sequence of operations on the multimap is the same sequence on the
listing.  What the multimap shows can be read off the listing. -/

universe u

namespace ConfigTree.Multimap

variable {α : Type u}

/-- Keys in the order they came, each with its values. -/
abbrev Listing (α : Type u) := List (String × List α)

/-- The values that stand with `key`. -/
def valuesWith (key : String) (pairs : List (String × α)) : List α :=
  (pairs.filter (·.1 = key)).map Prod.snd

namespace Listing

def keys (es : Listing α) : List String := es.map Prod.fst

/-- Changes the values of `key`, if it is listed. -/
def change (f : List α → List α) (key : String) (es : Listing α) : Listing α :=
  es.map fun e => (e.1, if e.1 = key then f e.2 else e.2)

/-- Changes the values of `key`, or lists it with one value behind the other keys. -/
def changeOrAdd (f : List α → List α) (key : String) (a : α) (es : Listing α) : Listing α :=
  if key ∈ es.keys then es.change f key else es ++ [(key, [a])]

/-- The keys of the pairs, where each comes first, with what `f` keeps of the values they stand
with. -/
def gather (f : List α → List α) (pairs : List (String × α)) : Listing α :=
  (pairs.map Prod.fst).eraseDups.map fun key => (key, f (valuesWith key pairs))

end Listing

def listing (o : Multimap α) : Listing α := o.entries.map fun e => (e.1, e.2.values)

namespace Operation

/-- The listing after the operation. -/
def applyListed (es : Listing α) : Operation α → Listing α
  | insert key a => es.changeOrAdd (fun _ => [a]) key a
  | push key a => es.changeOrAdd (· ++ [a]) key a
  | extend key a => es.change (· ++ [a]) key
  | setFirst key a => es.change (fun as => a :: as.tail) key
  | erase key => es.filter (·.1 ≠ key)
  | collect pairs => .gather (·.getLast?.toList) pairs

def runListed (es : Listing α) (operations : List (Operation α)) : Listing α :=
  operations.foldl applyListed es

/-- The values that the operation hands back. -/
def listedBack? (es : Listing α) : Operation α → Option (List α)
  | insert key _ | erase key => es.lookup key
  | push .. | extend .. | setFirst .. | collect _ => none

end Operation

/-- What the multimap shows is what is listed. -/
structure Shows (o : Multimap α) (es : Listing α) : Prop where
  listing : o.listing = es
  keysDistinct : es.keys.Nodup
  filled : ∀ e ∈ es, e.2 ≠ []
  size : o.size = es.length
  keys : o.keys = es.keys
  indexOf? : ∀ key i, o.indexOf? key = some i ↔ es.keys[i]? = some key
  contains : ∀ key, o.contains key = true ↔ key ∈ es.keys
  values : ∀ key, (o.member? key).map Member.values = es.lookup key
  get? : ∀ key, o.get? key = (es.lookup key).bind List.head?
  isRepeated : ∀ key m, o.member? key = some m → (m.isRepeated = true ↔ 2 ≤ m.values.length)

/-! ## What a multimap shows -/

section

variable {o : Multimap α}

theorem keys_listing (o : Multimap α) : o.listing.keys = o.keys := by
  rw [listing, Listing.keys, List.map_map]
  rfl

theorem lookup_listing (o : Multimap α) (key : String) :
    o.listing.lookup key = (o.member? key).map Member.values :=
  lookup_map (fun _ => Member.values) key o.entries

theorem values_eq_getD (o : Multimap α) (key : String) :
    (o.member? key).elim [] Member.values = (o.listing.lookup key).getD [] := by
  rw [lookup_listing]
  cases o.member? key <;> rfl

theorem get?_eq_head? (o : Multimap α) (key : String) :
    o.get? key = (o.listing.lookup key).bind List.head? := by
  rw [lookup_listing, Option.bind_map]
  rfl

theorem contains_iff {key : String} : o.contains key = true ↔ key ∈ o.keys := by
  rw [contains, Option.isSome_iff_ne_none]
  exact (not_congr lookup_eq_none_iff).trans not_not

theorem KeysDistinct.indexOf?_eq_some_iff (h : o.KeysDistinct) {key : String} {i : Nat} :
    o.indexOf? key = some i ↔ o.keys[i]? = some key := by
  rw [indexOf?, List.findIdx?_eq_some_iff_getElem, List.getElem?_eq_some_iff]
  simp only [beq_iff_eq]
  constructor
  · exact fun ⟨hi, hkey, _⟩ => ⟨hi, hkey⟩
  · rintro ⟨hi, hkey⟩
    refine ⟨hi, hkey, fun j hj hkey' => ?_⟩
    have hsame : j = i := (List.Nodup.getElem_inj_iff h).1 (hkey'.trans hkey.symm)
    exact Nat.ne_of_lt hj hsame

theorem Sound.shows (h : o.Sound) : o.Shows o.listing where
  listing := rfl
  keysDistinct := keys_listing o ▸ h.keysDistinct
  filled := by
    intro e he
    obtain ⟨entry, hentry, rfl⟩ := List.mem_map.1 he
    exact List.length_pos_iff.1 (h.members entry hentry).length_pos
  size := (List.length_map _).symm
  keys := (keys_listing o).symm
  indexOf? _ _ := keys_listing o ▸ h.keysDistinct.indexOf?_eq_some_iff
  contains _ := keys_listing o ▸ contains_iff
  values key := (lookup_listing o key).symm
  get? := get?_eq_head? o
  isRepeated key m hm := (h.members (key, m) (mem_of_member?_eq_some hm)).isRepeated_iff

end

/-! ## Operations -/

section

variable {o : Multimap α} {change : Member α → Member α} {f : List α → List α}

theorem listing_modify (h : o.KeysDistinct) (hf : ∀ m, (change m).values = f m.values)
    (key : String) : (o.modify key change).listing = o.listing.change f key := by
  rw [modify, listing, adjust_eq_map h, listing, Listing.change, List.map_map, List.map_map]
  refine List.map_congr_left fun e _ => ?_
  by_cases hkey : e.1 = key <;> simp [hkey, hf]

theorem listing_upsert (h : o.KeysDistinct) (hf : ∀ m, (change m).values = f m.values)
    (key : String) (a : α) :
    (Multimap.mk (upsert change (.single a) key o.entries)).listing =
      o.listing.changeOrAdd f key a := by
  rw [upsert_eq, Listing.changeOrAdd, keys_listing]
  by_cases hkey : key ∈ o.keys
  · rw [if_pos hkey, if_pos (show key ∈ o.entries.map Prod.fst from hkey), ← listing_modify h hf]
    rfl
  · rw [if_neg hkey, if_neg (show key ∉ o.entries.map Prod.fst from hkey), listing, List.map_append]
    rfl

theorem listing_insert (h : o.KeysDistinct) (key : String) (a : α) :
    (o.insert key a).listing = o.listing.changeOrAdd (fun _ => [a]) key a :=
  listing_upsert h (fun _ => rfl) key a

theorem listing_push (h : o.KeysDistinct) (key : String) (a : α) :
    (o.push key a).listing = o.listing.changeOrAdd (· ++ [a]) key a :=
  listing_upsert h (fun _ => rfl) key a

theorem listing_extend (h : o.KeysDistinct) (key : String) (a : α) :
    (o.modify key (·.push a)).listing = o.listing.change (· ++ [a]) key :=
  listing_modify h (fun m => m.values_push a) key

theorem listing_setFirst (h : o.KeysDistinct) (key : String) (a : α) :
    (o.setFirst key a).listing = o.listing.change (fun as => a :: as.tail) key :=
  listing_modify h (fun m => m.values_setFirst a) key

/-- Where keys are distinct, the first entry that is found is all that a key has. -/
theorem eraseP_eq_filter {key : String} {es : List (String × Member α)}
    (h : (es.map Prod.fst).Nodup) : es.eraseP (·.1 == key) = es.filter (·.1 ≠ key) := by
  induction es with
  | nil => rfl
  | cons e es ih =>
    obtain ⟨hnew, hrest⟩ := List.nodup_cons.1 h
    by_cases hkey : e.1 = key
    · have hothers : ∀ e' ∈ es, decide (e'.1 ≠ key) = true := by
        intro e' he'
        rw [decide_eq_true_iff]
        intro hkey'
        exact hnew (hkey.trans hkey'.symm ▸ List.mem_map_of_mem he')
      rw [List.eraseP_cons_of_pos (by simpa using hkey),
        List.filter_cons_of_neg (by simpa using hkey), List.filter_eq_self.2 hothers]
    · rw [List.eraseP_cons_of_neg (by simpa using hkey),
        List.filter_cons_of_pos (by simpa using hkey), ih hrest]

theorem listing_erase (h : o.KeysDistinct) (key : String) :
    (o.erase key).listing = o.listing.filter (·.1 ≠ key) := by
  rw [erase, listing, eraseP_eq_filter h, listing, List.filter_map]
  rfl

end

/-! ## Gathering pairs -/

section

variable {f g : List α → List α}

theorem valuesWith_concat (key : String) (pairs : List (String × α)) (p : String × α) :
    valuesWith key (pairs ++ [p]) =
      valuesWith key pairs ++ if p.1 = key then [p.2] else [] := by
  rw [valuesWith, List.filter_append, List.map_append, valuesWith]
  by_cases hkey : p.1 = key <;> simp [hkey]

theorem valuesWith_eq_nil {key : String} {pairs : List (String × α)}
    (h : key ∉ pairs.map Prod.fst) : valuesWith key pairs = [] := by
  rw [valuesWith, List.map_eq_nil_iff, List.filter_eq_nil_iff]
  intro p hp hkey
  exact h (of_decide_eq_true hkey ▸ List.mem_map_of_mem hp)

namespace Listing

theorem keys_gather (f : List α → List α) (pairs : List (String × α)) :
    (gather f pairs).keys = (pairs.map Prod.fst).eraseDups := by
  rw [gather, keys, List.map_map]
  exact List.map_id _

theorem mem_keys_gather {key : String} {pairs : List (String × α)} :
    key ∈ (gather f pairs).keys ↔ key ∈ pairs.map Prod.fst := by
  rw [keys_gather, List.mem_eraseDups]

theorem gather_concat {a : α} (hnew : f [a] = [a]) (hmore : ∀ as, f (as ++ [a]) = g (f as))
    (pairs : List (String × α)) (key : String) :
    gather f (pairs ++ [(key, a)]) = (gather f pairs).changeOrAdd g key a := by
  rw [changeOrAdd, gather, List.map_append, List.eraseDups_append, List.map_append]
  by_cases hkey : key ∈ pairs.map Prod.fst
  · have hnone : [key].removeAll (pairs.map Prod.fst) = [] := by simp [List.removeAll, hkey]
    rw [if_pos (mem_keys_gather.2 hkey), List.map_cons, List.map_nil, hnone, List.eraseDups_nil,
      List.map_nil, List.append_nil, change, gather, List.map_map]
    refine List.map_congr_left fun k _ => ?_
    rw [valuesWith_concat]
    by_cases hk : k = key
    · simp [hk, hmore]
    · simp [hk, Ne.symm hk]
  · have hone : [key].removeAll (pairs.map Prod.fst) = [key] := by simp [List.removeAll, hkey]
    rw [if_neg (mt mem_keys_gather.1 hkey), List.map_cons, List.map_nil, hone, List.eraseDups_cons,
      gather]
    refine congrArg₂ (· ++ ·) (List.map_congr_left fun k hk => ?_) ?_
    · have hne : key ≠ k := fun he => hkey (he ▸ List.mem_eraseDups.1 hk)
      rw [valuesWith_concat, if_neg hne, List.append_nil]
    · simp [valuesWith_concat, valuesWith_eq_nil hkey, hnew]

end Listing

theorem listing_ofPairs (pairs : List (String × α)) :
    (ofPairs pairs).listing = .gather id pairs := by
  induction pairs using List.reverseRecOn with
  | nil => rfl
  | append_singleton pairs p ih =>
    rw [Listing.gather_concat (g := (· ++ [p.2])) rfl fun _ => rfl, ← ih,
      ← listing_push (sound_ofPairs pairs).keysDistinct, ofPairs, List.foldl_append]
    rfl

theorem keys_ofPairs (pairs : List (String × α)) :
    (ofPairs pairs).keys = (pairs.map Prod.fst).eraseDups := by
  rw [← keys_listing, listing_ofPairs, Listing.keys_gather]

theorem values_ofPairs (key : String) (pairs : List (String × α)) :
    ((ofPairs pairs).member? key).elim [] Member.values = valuesWith key pairs := by
  rw [values_eq_getD, listing_ofPairs]
  by_cases hkey : key ∈ pairs.map Prod.fst
  · rw [Listing.gather, List.lookup_graph _ (List.mem_eraseDups.2 hkey)]
    rfl
  · rw [lookup_eq_none_iff.2 (mt Listing.mem_keys_gather.1 hkey), valuesWith_eq_nil hkey]
    rfl

theorem listing_ofLatest (pairs : List (String × α)) :
    (ofLatest pairs).listing = .gather (·.getLast?.toList) pairs := by
  induction pairs using List.reverseRecOn with
  | nil => rfl
  | append_singleton pairs p ih =>
    rw [Listing.gather_concat (g := fun _ => [p.2]) rfl fun _ => by simp, ← ih,
      ← listing_insert (sound_ofLatest pairs).keysDistinct, ofLatest, List.foldl_append]
    rfl

end

/-! ## Sequences of operations -/

namespace Operation

variable {o : Multimap α}

theorem sound_apply (h : o.Sound) (operation : Operation α) : (operation.apply o).Sound := by
  cases operation with
  | insert key a => exact h.insert key a
  | push key a => exact h.push key a
  | extend key a => exact h.modify (fun _ hm => hm.push a) key
  | setFirst key a => exact h.setFirst key a
  | erase key => exact h.erase key
  | collect pairs => exact sound_ofLatest pairs

theorem listing_apply (h : o.KeysDistinct) (operation : Operation α) :
    (operation.apply o).listing = operation.applyListed o.listing := by
  cases operation with
  | insert key a => exact listing_insert h key a
  | push key a => exact listing_push h key a
  | extend key a => exact listing_extend h key a
  | setFirst key a => exact listing_setFirst h key a
  | erase key => exact listing_erase h key
  | collect pairs => exact listing_ofLatest pairs

theorem sound_run (h : o.Sound) (operations : List (Operation α)) : (run o operations).Sound :=
  List.foldlRecOn operations _ h fun _ h operation _ => sound_apply h operation

theorem listing_run (h : o.Sound) (operations : List (Operation α)) :
    (run o operations).listing = runListed o.listing operations := by
  induction operations generalizing o with
  | nil => rfl
  | cons operation operations ih =>
    rw [run, List.foldl_cons, ← run, ih (sound_apply h operation), listing_apply h.keysDistinct,
      runListed, runListed, List.foldl_cons]

theorem map_values_handedBack? (o : Multimap α) (operation : Operation α) :
    (operation.handedBack? o).map Member.values = operation.listedBack? o.listing := by
  cases operation with
  | insert key _ | erase key => exact (lookup_listing o key).symm
  | _ => rfl

theorem run_push (pairs : List (String × α)) :
    run ∅ (pairs.map fun p => push p.1 p.2) = ofPairs pairs := List.foldl_map

end Operation

/-- A sequence of operations does to a multimap what it does to the listing: at its end, and so at
every point of it, the multimap shows what is listed, and the next operation hands back what is
listed.  When pairs are pushed one by one, each key has its place where it first comes, and
precisely the values that come with it, in order. -/
theorem operations_follow_listing :
    (∀ o : Multimap α, o.Sound → ∀ operations : List (Operation α),
      let o' := Operation.run o operations
      let es := Operation.runListed o.listing operations
      o'.Shows es ∧ ∀ operation : Operation α,
        (operation.handedBack? o').map Member.values = operation.listedBack? es) ∧
    ∀ pairs : List (String × α),
      let o := Operation.run ∅ (pairs.map fun p => .push p.1 p.2)
      o.keys = (pairs.map Prod.fst).eraseDups ∧
        ∀ key, (o.member? key).elim [] Member.values = valuesWith key pairs := by
  constructor
  · intro o ho operations o' es
    have hlisting : o'.listing = es := Operation.listing_run ho operations
    rw [← hlisting]
    exact ⟨(Operation.sound_run ho operations).shows, Operation.map_values_handedBack? o'⟩
  · intro pairs o
    have ho : o = ofPairs pairs := Operation.run_push pairs
    rw [ho]
    exact ⟨keys_ofPairs pairs, fun key => values_ofPairs key pairs⟩

/-- A key that is taken out and pushed again comes last, and one that is put in keeps its place but
none of its values. -/
theorem operations_follow_listing_of_key_put_back :
    let o : Multimap Nat := ⟨[("a", .repeated [1, 2]), ("b", .repeated [3, 4])]⟩
    let operations : List (Operation Nat) := [.setFirst "a" 5, .push "c" 6, .erase "a",
      .extend "a" 7, .push "a" 8, .insert "b" 9, .extend "a" 10]
    let es : Listing Nat := [("b", [9]), ("c", [6]), ("a", [8, 10])]
    let pairs : List (String × Nat) := [("b", 1), ("a", 2), ("b", 3)]
    let pushed := Operation.run ∅ (pairs.map fun p => .push p.1 p.2)
    (o.Sound ∧ Operation.runListed o.listing operations = es) ∧
      (Operation.run o operations).Shows es ∧
      ((Operation.erase "a").handedBack? (Operation.run o operations)).map Member.values =
        some [8, 10] ∧
      pushed.keys = ["b", "a"] ∧ (pushed.member? "b").elim [] Member.values = [1, 3] := by
  intro o operations es pairs pushed
  have ho : o.Sound := by decide
  have hes : Operation.runListed o.listing operations = es := by decide +kernel
  obtain ⟨hrun, hpush⟩ := operations_follow_listing (α := Nat)
  obtain ⟨hshows, hback⟩ := hrun o ho operations
  obtain ⟨hkeys, hvalues⟩ := hpush pairs
  rw [hes] at hshows hback
  exact ⟨⟨ho, hes⟩, hshows, hback (.erase "a"), hkeys, hvalues "b"⟩

end ConfigTree.Multimap

import EffectTree.Proofs.CellKeys
import EffectTree.Proofs.NumberEquality
import EffectTree.Proofs.PlainData
import Mathlib.Data.List.Find

/-!
# Cells after calls

The cells are a map from scalars, numbers that are exactly the same being one key. What a key gives
and which keys there are in which order and spelling can be read off the calls made so far.
-/
namespace EffectTree

open Number

namespace Value

inductive Atom where
  | null
  | number (x : Exact)
  | text (s : String)
  deriving DecidableEq

/-- What a value is as a key; a NaN and what is no scalar are none. -/
def atom? : Value → Option Atom
  | null => some .null
  | bool b => some (.number (.finite (ofBit b)))
  | int i _ => some (.number (.finite i))
  | float x _ => (Binary64.ofFloat x).exactValue?.map .number
  | str s _ => some (.text s)
  | _ => none

/-- Scalars but NaN. -/
structure IsKey (v : Value) : Prop where
  isScalar : v.isScalar = true
  not_nan : ∀ x mark, v = .float x mark → x.isNaN = false

variable {v w : Value}

theorem IsKey.exists_atom (h : v.IsKey) : ∃ a, v.atom? = some a := by
  obtain ⟨hscalar, hnan⟩ := h
  cases v with
  | null | bool | int | str => exact ⟨_, rfl⟩
  | float x mark =>
    have hx : x ≠ Float.nan := by simpa using hnan x mark rfl
    obtain ⟨exact, hexact⟩ := Option.ne_none_iff_exists'.mp
      (mt Binary64.exactValue?_ofFloat_eq_none_iff.mp hx)
    exact ⟨.number exact, by simp [atom?, hexact]⟩
  | _ => cases hscalar

theorem isKey_ofStr (s : String) : (ofStr s).IsKey := ⟨rfl, fun _ _ h => by cases h⟩

theorem atom?_of_real? {r : Real} (h : v.real? = some r) : v.atom? = r.exactValue?.map .number := by
  cases v with
  | bool | int | float =>
    cases h
    rfl
  | _ => cases h

theorem eqv_of_real? {r s : Real} (hv : v.real? = some r) (hw : w.real? = some s) :
    v.eqv w = r.eqv s := by
  have hzero : Real.eqv (.int 0) (.int 0) = true := rfl
  cases v with
  | bool | int | float =>
    cases w with
    | bool | int | float =>
      cases hv
      cases hw
      simp [eqv, numbersEqv, parts?, real?, hzero]
    | _ => cases hw
  | _ => cases hv

theorem sameUndefined_eq_false (h : v.IsKey) (w : Value) : v.sameUndefined w = false := by
  obtain ⟨hscalar, hnan⟩ := h
  cases v with
  | float x mark =>
    cases w with
    | float y mark' => simp only [sameUndefined, hnan x mark rfl, Bool.false_and]
    | _ => rfl
  | complex => cases hscalar
  | _ => rfl

theorem real?_eq_none_iff (h : v.IsKey) :
    v.real? = none ↔ v = .null ∨ ∃ s mark, v = .str s mark := by
  obtain ⟨hscalar, -⟩ := h
  cases v with
  | null | bool | int | float | str => simp [real?]
  | _ => cases hscalar

theorem eqv_real?_none {r : Real} (hv : v.real? = some r) (hw : w.real? = none) (hkey : w.IsKey) :
    v.eqv w = false ∧ w.eqv v = false ∧ v.atom? ≠ w.atom? := by
  rw [atom?_of_real? hv]
  rcases (real?_eq_none_iff hkey).mp hw with rfl | ⟨s, mark, rfl⟩ <;>
    cases v <;> simp_all [eqv, numbersEqv, parts?, real?, atom?]

theorem agrees_iff (hv : v.IsKey) (hw : w.IsKey) : v.agrees w = true ↔ v.atom? = w.atom? := by
  rw [agrees, sameUndefined_eq_false hv, Bool.or_false]
  cases hrv : v.real? with
  | some r =>
    cases hrw : w.real? with
    | some s =>
      have hexact : r.exactValue? ≠ none := by
        obtain ⟨a, ha⟩ := hv.exists_atom
        rw [atom?_of_real? hrv] at ha
        rintro hnone
        simp [hnone] at ha
      rw [eqv_of_real? hrv hrw, Real.eqv_iff hexact, atom?_of_real? hrv, atom?_of_real? hrw]
      exact (Option.map_injective fun x y h => by simpa using h).eq_iff.symm
    | none =>
      obtain ⟨heqv, -, hatom⟩ := eqv_real?_none hrv hrw hw
      simp [heqv, hatom]
  | none =>
    cases hrw : w.real? with
    | some s =>
      obtain ⟨-, heqv, hatom⟩ := eqv_real?_none hrw hrv hv
      simp [heqv, hatom.symm]
    | none =>
      rcases (real?_eq_none_iff hv).mp hrv with rfl | ⟨s, mark, rfl⟩ <;>
        rcases (real?_eq_none_iff hw).mp hrw with rfl | ⟨s', mark', rfl⟩ <;> simp [eqv, atom?]

theorem IsKey.requireHashable (h : v.IsKey) : v.requireHashable = .ok () := by
  obtain ⟨hscalar, -⟩ := h
  cases v with
  | null | bool | int | float | str => rfl
  | _ => cases hscalar

theorem IsKey.unhashable? (h : v.IsKey) : v.unhashable? = none := by
  obtain ⟨hscalar, -⟩ := h
  cases v with
  | null | bool | int | float | str => rfl
  | _ => cases hscalar

end Value

namespace Store

namespace Cells

variable {cells : Cells} {key k : Value} {d : Descriptor}

/-- All keys are scalars but NaN. -/
def Keyed (cells : Cells) : Prop := ∀ k ∈ cells.keys, k.IsKey

theorem Keyed.put (h : cells.Keyed) (hkey : key.IsKey) (d : Descriptor) :
    (cells.put key d).Keyed := by
  intro k hk
  rcases mem_keys_put hk with hk | ⟨rfl, -⟩
  · exact h k hk
  · exact hkey

theorem Keyed.erase (h : cells.Keyed) (key : Value) : (cells.erase key).Keyed := fun k hk =>
  h k (keys_erase_subset hk)

/-- The cells of the keys that are not the given one. -/
def others (cells : Cells) (key : Value) : List (Value × Descriptor) :=
  cells.entries.filter fun entry => entry.1.atom? ≠ key.atom?

theorem Keyed.others_put (h : cells.Keyed) (hkey : key.IsKey) (d : Descriptor) :
    (cells.put key d).others key = cells.others key := by
  obtain ⟨entries⟩ := cells
  simp only [others, Cells.put]
  induction entries with
  | nil => simp [putEntry]
  | cons entry rest ih =>
    obtain ⟨hentry, hrest⟩ : entry.1.IsKey ∧ Keyed ⟨rest⟩ := by simpa [Keyed, keys] using h
    by_cases hstored : entry.1.atom? = key.atom?
    · rw [putEntry, if_pos ((Value.agrees_iff hentry hkey).mpr hstored)]
      simp [hstored]
    · rw [putEntry, if_neg (by rwa [Value.agrees_iff hentry hkey])]
      simpa [hstored] using ih hrest

theorem Keyed.agrees_eq (h : cells.Keyed) {entry : Value × Descriptor}
    (hentry : entry ∈ cells.entries) (hk : k.IsKey) :
    entry.1.agrees k = decide (entry.1.atom? = k.atom?) :=
  Bool.eq_iff_iff.mpr (by simpa using Value.agrees_iff (h entry.1 (List.mem_map_of_mem hentry)) hk)

theorem Keyed.others_erase (h : cells.Keyed) (hkey : key.IsKey) :
    (cells.erase key).others key = cells.others key := by
  rw [others, others, Cells.erase, List.filter_filter]
  refine List.filter_congr fun entry hentry => ?_
  rw [h.agrees_eq hentry hkey]
  by_cases heq : entry.1.atom? = key.atom? <;> simp [heq]

/-- One key gives the same in all of its spellings. -/
theorem Keyed.get?_congr (h : cells.Keyed) (hkey : key.IsKey) (hk : k.IsKey)
    (heq : key.atom? = k.atom?) :
    cells.get? k = cells.get? key := by
  have hfind : cells.entries.find? (fun entry => entry.1.agrees k) =
      cells.entries.find? fun entry => entry.1.agrees key :=
    List.find?_congr fun entry hentry => by rw [h.agrees_eq hentry hk, h.agrees_eq hentry hkey, heq]
  rw [get?, get?, hfind]

theorem Keyed.get?_others (h : cells.Keyed) (hk : k.IsKey) (hne : key.atom? ≠ k.atom?) :
    cells.get? k = ((cells.others key).find? fun entry => entry.1.agrees k).map (·.2) := by
  have hfind : cells.entries.find? (fun entry => entry.1.agrees k) =
      (cells.others key).find? fun entry => entry.1.agrees k := by
    rw [others, List.find?_filter]
    refine List.find?_congr fun entry hentry => ?_
    rw [h.agrees_eq hentry hk]
    by_cases heq : entry.1.atom? = k.atom? <;> simp [heq, hne.symm]
  rw [get?, hfind]

theorem get?_put_self (hkey : key.IsKey) (d : Descriptor) :
    (cells.put key d).get? key = some d := by
  obtain ⟨entries⟩ := cells
  simp only [get?, put]
  induction entries with
  | nil => simp [putEntry, Value.agrees_iff hkey hkey]
  | cons entry rest ih =>
    rw [putEntry]
    split
    · simp [*]
    · simp [*]

theorem get?_erase_self : (cells.erase key).get? key = none := by
  simp [get?, erase, List.find?_filter]

theorem has_eq_isSome_get? : cells.has key = (cells.get? key).isSome := by
  rw [has, get?, Option.isSome_map, List.isSome_find?]

theorem keys_erase : (cells.erase key).keys = cells.keys.filter fun k => !k.agrees key := by
  rw [keys, keys, erase, List.filter_map]
  rfl

end Cells

/-- A call, with the key that it is given or, on creation, that it issues. -/
inductive Call where
  | create (key : String) (d : Descriptor)
  | set (key : Value) (d : Descriptor)
  | delete (key : Value)
  | get (key : Value)

namespace Call

def key : Call → Value
  | create key _ => .ofStr key
  | set key _ | delete key | get key => key

def stored? : Call → Option Descriptor
  | create _ d | set _ d => some d
  | delete _ | get _ => none

def deletes (call : Call) (key : Value) : Bool :=
  match call with
  | delete k => k.atom? = key.atom?
  | _ => false

def touches (call : Call) (key : Value) : Bool :=
  match call with
  | get _ => false
  | call => call.key.atom? = key.atom?

/-- The cells after a call; one that fails leaves them as they are. -/
def after (cells : Cells) : Call → Cells
  | create key d => cells.put (.ofStr key) d
  | set key d => (cells.set key d).toOption.getD cells
  | delete key => ((cells.delete key).toOption.map (·.2)).getD cells
  | get _ => cells

variable {cells : Cells} {call : Call} {k : Value} {d : Descriptor}

theorem set_eq (hkey : k.IsKey) (d : Descriptor) : cells.set k d = .ok (cells.put k d) := by
  rw [Cells.set, hkey.requireHashable]
  rfl

theorem after_of_stored (hkey : call.key.IsKey) (h : call.stored? = some d) :
    call.after cells = cells.put call.key d := by
  cases call with
  | create key d' =>
    cases h
    rfl
  | set key d' =>
    cases h
    rw [after, set_eq (k := key) hkey]
    rfl
  | delete | get => cases h

theorem delete_eq (hkey : k.IsKey) : cells.delete k = .ok (cells.has k, cells.erase k) := by
  rw [Cells.delete]
  split
  · rename_i hempty
    obtain ⟨entries⟩ := cells
    obtain rfl : entries = [] := by simpa using hempty
    rfl
  · rw [hkey.requireHashable]
    rfl

theorem after_delete (hkey : k.IsKey) : (delete k).after cells = cells.erase k := by
  rw [after, delete_eq hkey]
  rfl

theorem after_keyed (h : cells.Keyed) (hkey : call.key.IsKey) : (call.after cells).Keyed := by
  cases call with
  | create key d => exact h.put hkey d
  | set key d =>
    rw [after_of_stored hkey rfl]
    exact h.put hkey d
  | delete key =>
    rw [after_delete (k := key) hkey]
    exact h.erase key
  | get => exact h

theorem others_after (h : cells.Keyed) (hkey : call.key.IsKey) :
    (call.after cells).others call.key = cells.others call.key := by
  cases call with
  | create key d => exact h.others_put hkey d
  | set key d =>
    rw [after_of_stored hkey rfl]
    exact h.others_put hkey d
  | delete key =>
    rw [after_delete (k := key) hkey]
    exact h.others_erase hkey
  | get => rfl

end Call

/-- The cells after all calls of a history, the oldest one first. -/
def Cells.ofHistory (history : List Call) : Cells :=
  history.foldl (fun cells call => call.after cells) {}

/-- The descriptor that the latest call to store or delete under a key stores, if it stores one. -/
def live? (history : List Call) (key : Value) : Option Descriptor :=
  (history.reverse.find? (·.touches key)).bind Call.stored?

/-- Whether the call at a position makes a new cell, which no later call deletes. -/
def inserts (history : List Call) (i : Nat) : Bool :=
  history[i]?.any fun call =>
    call.stored?.isSome && (live? (history.take i) call.key).isNone &&
      (history.drop (i + 1)).all fun later => !later.deletes call.key

/-- The keys as spelled by the calls that make the cells, in the order of these calls. -/
def liveKeys (history : List Call) : List Value :=
  (List.range history.length).filterMap fun i =>
    if inserts history i then history[i]?.map Call.key else none

section Histories

variable {history : List Call} {call : Call} {k : Value} {d : Descriptor}

theorem live?_concat :
    live? (history ++ [call]) k = if call.touches k then call.stored? else live? history k := by
  rw [live?, List.reverse_append, List.reverse_singleton, List.singleton_append, List.find?_cons]
  cases call.touches k <;> rfl

theorem inserts_concat_of_lt {i : Nat} (hi : i < history.length) :
    inserts (history ++ [call]) i = (inserts history i && !call.deletes history[i].key) := by
  have htake : (history ++ [call]).take i = history.take i := List.take_append_of_le_length hi.le
  have hdrop : (history ++ [call]).drop (i + 1) = history.drop (i + 1) ++ [call] :=
    List.drop_append_of_le_length hi
  simp [inserts, List.getElem?_append_left hi, List.getElem?_eq_getElem hi, htake, hdrop,
    Bool.and_assoc]

theorem inserts_concat_length : inserts (history ++ [call]) history.length =
    (call.stored?.isSome && (live? history call.key).isNone) := by
  simp [inserts]

/-- A deletion takes its key off the list, and a cell that is made anew goes to the end. -/
theorem liveKeys_concat : liveKeys (history ++ [call]) =
    (liveKeys history).filter (fun k => !call.deletes k) ++
      if call.stored?.isSome && (live? history call.key).isNone then [call.key] else [] := by
  have hearlier : (List.range history.length).filterMap (fun i =>
      if inserts (history ++ [call]) i then (history ++ [call])[i]?.map Call.key else none) =
      (liveKeys history).filter fun k => !call.deletes k := by
    rw [liveKeys, List.filter_filterMap]
    refine List.filterMap_congr fun i hi => ?_
    have hlt := List.mem_range.mp hi
    rw [inserts_concat_of_lt hlt, List.getElem?_append_left hlt, List.getElem?_eq_getElem hlt]
    cases inserts history i <;> cases hdeletes : call.deletes history[i].key <;>
      simp [hdeletes, Option.filter_some]
  rw [liveKeys, List.length_append, List.length_singleton, List.range_succ, List.filterMap_append,
    hearlier]
  congr 1
  simp only [List.filterMap_cons, List.filterMap_nil, inserts_concat_length]
  cases call.stored?.isSome && (live? history call.key).isNone <;> simp

theorem ofHistory_concat :
    Cells.ofHistory (history ++ [call]) = call.after (Cells.ofHistory history) := by
  simp [Cells.ofHistory]

theorem ofHistory_keyed (h : ∀ call ∈ history, call.key.IsKey) :
    (Cells.ofHistory history).Keyed := by
  induction history using List.reverseRecOn with
  | nil => exact fun k hk => by cases hk
  | append_singleton history call ih =>
    rw [List.forall_mem_append, List.forall_mem_singleton] at h
    rw [ofHistory_concat]
    exact Call.after_keyed (ih h.1) h.2

/-- After a call a key gives what the call stores under it, and what it gave before if the call is
for another key. -/
theorem Call.get?_after {cells : Cells} (h : cells.Keyed) (hkey : call.key.IsKey) (hk : k.IsKey) :
    (call.after cells).get? k = if call.touches k then call.stored? else cells.get? k := by
  by_cases heq : call.key.atom? = k.atom?
  · rw [(after_keyed h hkey).get?_congr hkey hk heq]
    cases call with
    | create key d =>
      rw [after_of_stored hkey rfl, Cells.get?_put_self hkey]
      simp [touches, heq, stored?]
    | set key d =>
      rw [after_of_stored hkey rfl, Cells.get?_put_self hkey]
      simp [touches, heq, stored?]
    | delete key =>
      rw [after_delete (k := key) hkey]
      exact Cells.get?_erase_self.trans (by simp [touches, heq, stored?])
    | get key => exact (h.get?_congr hkey hk heq).symm
  · have htouches : call.touches k = false := by
      cases call <;> simp_all [touches, key]
    rw [(after_keyed h hkey).get?_others hk heq, others_after h hkey, ← h.get?_others hk heq]
    simp [htouches]

theorem get?_ofHistory (h : ∀ call ∈ history, call.key.IsKey) (hk : k.IsKey) :
    (Cells.ofHistory history).get? k = live? history k := by
  induction history using List.reverseRecOn with
  | nil => rfl
  | append_singleton history call ih =>
    rw [List.forall_mem_append, List.forall_mem_singleton] at h
    rw [ofHistory_concat, Call.get?_after (ofHistory_keyed h.1) h.2 hk, ih h.1, live?_concat]

theorem filter_not_deletes {keys : List Value} (h : ∀ key, call ≠ .delete key) :
    keys.filter (fun k => !call.deletes k) = keys := by
  have hnone (k : Value) : call.deletes k = false := by
    cases call with
    | delete key => exact absurd rfl (h key)
    | _ => rfl
  simp [hnone]

theorem keys_put_ofHistory (h : ∀ call ∈ history, call.key.IsKey) (hk : k.IsKey) (d : Descriptor) :
    ((Cells.ofHistory history).put k d).keys =
      (Cells.ofHistory history).keys ++ if (live? history k).isNone then [k] else [] := by
  have hhas : (Cells.ofHistory history).has k = (live? history k).isSome := by
    rw [Cells.has_eq_isSome_get?, get?_ofHistory h hk]
  cases hlive : live? history k with
  | some d' =>
    rw [hlive] at hhas
    rw [Cells.keys_put_of_has hhas]
    simp
  | none =>
    rw [hlive] at hhas
    rw [Cells.keys_put_of_not_has hhas]
    simp

theorem keys_ofHistory (h : ∀ call ∈ history, call.key.IsKey) :
    (Cells.ofHistory history).keys = liveKeys history := by
  -- By induction on the latest call: storing appends its key unless it is there, and deleting takes
  -- it away.
  induction history using List.reverseRecOn with
  | nil => rfl
  | append_singleton history call ih =>
    rw [List.forall_mem_append, List.forall_mem_singleton] at h
    obtain ⟨hhistory, hkey⟩ := h
    rw [ofHistory_concat, liveKeys_concat, ← ih hhistory]
    cases call with
    | create key d =>
      rw [Call.after_of_stored hkey rfl, keys_put_ofHistory hhistory hkey,
        filter_not_deletes (by simp)]
      rfl
    | set key d =>
      rw [Call.after_of_stored hkey rfl, keys_put_ofHistory hhistory hkey,
        filter_not_deletes (by simp)]
      rfl
    | delete key =>
      change key.IsKey at hkey
      rw [Call.after_delete hkey, Cells.keys_erase]
      refine (List.filter_congr fun k hk => ?_).trans (List.append_nil _).symm
      have hagrees : k.agrees key = decide (k.atom? = key.atom?) :=
        Bool.eq_iff_iff.mpr (by simpa using Value.agrees_iff (ofHistory_keyed hhistory k hk) hkey)
      rw [hagrees, Call.deletes]
      simp [eq_comm]
    | get key =>
      rw [filter_not_deletes (by simp)]
      exact (List.append_nil _).symm

structure Follows (history : List Call) (cells : Cells) : Prop where
  /-- A key gives what has been stored under it last, unless it has been deleted since. -/
  get : ∀ k, k.IsKey → cells.get k = (live? history k).elim (.error .cellDeleted) .ok
  set : ∀ k d, k.IsKey → cells.set k d = .ok (Call.after cells (.set k d))
  delete : ∀ k, k.IsKey → cells.delete k =
    .ok ((live? history k).isSome, Call.after cells (.delete k))
  /-- A call changes no cell but that of its key. -/
  others : ∀ call : Call, call.key.IsKey →
    (call.after cells).others call.key = cells.others call.key
  keys : cells.keys = liveKeys history

theorem cells_follow_history (h : ∀ call ∈ history, call.key.IsKey) :
    Follows history (Cells.ofHistory history) where
  get k hk := by
    rw [Cells.get, hk.unhashable?]
    simp only [get?_ofHistory h hk]
    cases live? history k <;> rfl
  set k d hk := by
    have hafter : Call.after (Cells.ofHistory history) (.set k d) =
        (Cells.ofHistory history).put k d :=
      Call.after_of_stored hk rfl
    rw [Call.set_eq hk, hafter]
  delete k hk := by
    rw [Call.delete_eq hk, Call.after_delete hk, Cells.has_eq_isSome_get?, get?_ofHistory h hk]
  others call hkey := Call.others_after (ofHistory_keyed h) hkey
  keys := keys_ofHistory h

/-- One cell under three spellings of a key, which is deleted and set again, and a cell beside
it. -/
def respelled : List Call :=
  [.set (.ofInt 1) (.literal (.ofStr "first")), .create "a" .unknown,
    .set (.ofFloat 1) (.literal (.ofStr "second")),
    .delete (.bool true), .set (.bool true) (.literal (.ofStr "third")), .get (.ofInt 1)]

theorem respelled_isKey : ∀ call ∈ respelled, call.key.IsKey := by
  have hfloat : (Value.ofFloat 1).IsKey := ⟨rfl, fun x mark h => by cases h; rfl⟩
  simp only [respelled, List.forall_mem_cons]
  refine ⟨⟨rfl, ?_⟩, Value.isKey_ofStr "a", hfloat, ⟨rfl, ?_⟩, ⟨rfl, ?_⟩, ⟨rfl, ?_⟩, by simp⟩ <;>
    exact fun _ _ h => by cases h

theorem respelled_follows :
    (∀ call ∈ respelled, call.key.IsKey) ∧ Follows respelled (Cells.ofHistory respelled) ∧
    liveKeys respelled = [.ofStr "a", .bool true] :=
  ⟨respelled_isKey, cells_follow_history respelled_isKey,
    (Value.sameItems_iff _ _).mp (by decide +kernel)⟩

end Histories

end Store

end EffectTree

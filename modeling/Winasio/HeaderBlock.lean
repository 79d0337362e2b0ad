import Mathlib.Data.List.Infix
import Winasio.ClientPayload
import Winasio.Delimiter

/-!
The additional headers of a request as one block of text, and the headers a
reader of the block finds in it: one in each line, split at its first `": "`.
-/

namespace Winasio.ClientPayload

namespace Headers

theorem cr_ne_lf : (13 : UInt16) ≠ 10 := by decide
theorem colon_ne_space : (58 : UInt16) ≠ 32 := by decide

def lineEnd : Delimiter UInt16 := .pair 13 10 cr_ne_lf
def keyEnd : Delimiter UInt16 := .pair 58 32 colon_ne_space

@[simp] theorem text_lineEnd : lineEnd.text = crlf := rfl
@[simp] theorem text_keyEnd : keyEnd.text = separator := rfl

/-- A sequence of calls of `add`, each with a key and a value. -/
def addAll (h : Headers) (pairs : List (WString × WString)) : Headers :=
  pairs.foldl (fun h p => h.add p.1 p.2) h

/-- The `size` characters at `get`, as WinHTTP is given them. -/
def block (h : Headers) : WString :=
  match h.get with
  | none => []
  | some data => data.take h.size.toNat

def lines (text : WString) : List WString :=
  if text.isEmpty then [] else lineEnd.pieces text

/-- The headers in a block; `none` for a line without a key. -/
def parse (text : WString) : List (Option (WString × WString)) :=
  (lines text).map keyEnd.cut

/-- The text that one `add` appends. -/
def line (p : WString × WString) : WString := p.1 ++ (separator ++ p.2)

/-- Nothing in the key or in the value ends a line, nor the key early. -/
def Plain (p : WString × WString) : Prop :=
  ¬ crlf <:+: p.1 ∧ ¬ crlf <:+: p.2 ∧ ¬ separator <:+: p.1

instance : DecidablePred Plain := fun _ => instDecidableAnd

theorem line_ne_nil (p : WString × WString) : line p ≠ [] := by
  simp [line, separator]

theorem crlf_infix_line {p : WString × WString} :
    crlf <:+: line p ↔ crlf <:+: p.1 ∨ crlf <:+: p.2 := by
  have hcolon : (58 : UInt16) ∉ lineEnd.text := by decide
  have hspace : (32 : UInt16) ∉ lineEnd.text := by decide
  change lineEnd.text <:+: p.1 ++ 58 :: ([] ++ 32 :: p.2) ↔ _
  rw [Delimiter.infix_append_cons_iff hcolon, Delimiter.infix_append_cons_iff hspace,
    List.infix_nil]
  simp [crlf]

theorem data_add_of_ne {h : Headers} (hne : h.data ≠ []) (p : WString × WString) :
    (h.add p.1 p.2).data = h.data ++ (crlf ++ line p) := by
  simp [add, hne, line]

/-- No line break before the first header and one before each other. -/
theorem data_addAll_of_ne {h : Headers} (hne : h.data ≠ []) (pairs : List (WString × WString)) :
    (h.addAll pairs).data = crlf.intercalate (h.data :: pairs.map line) := by
  induction pairs generalizing h with
  | nil => exact List.intercalate_singleton.symm
  | cons p pairs ih =>
      have hdata := data_add_of_ne hne p
      have hadd : (h.add p.1 p.2).data ≠ [] := by
        rw [hdata]
        exact List.append_ne_nil_of_left_ne_nil hne _
      calc (h.addAll (p :: pairs)).data
          = crlf.intercalate ((h.data ++ (crlf ++ line p)) :: pairs.map line) := by
            rw [← hdata]
            exact ih hadd
        _ = h.data ++ (crlf ++ crlf.intercalate (line p :: pairs.map line)) := by
            rw [Delimiter.intercalate_append_cons, Delimiter.intercalate_append_cons]
        _ = crlf.intercalate (h.data :: (p :: pairs).map line) := by
            rw [List.map_cons, List.intercalate_cons_cons, List.append_assoc]

theorem data_addAll (pairs : List (WString × WString)) :
    (addAll {} pairs).data = crlf.intercalate (pairs.map line) := by
  cases pairs with
  | nil => rfl
  | cons p pairs =>
      have hdata : ((addAll {} [p])).data = line p := by
        simp [addAll, add, line]
      have hne : (addAll {} [p]).data ≠ [] := by
        rw [hdata]
        exact line_ne_nil p
      rw [List.map_cons, ← hdata]
      exact data_addAll_of_ne hne pairs

theorem addAll_append (h : Headers) (before after : List (WString × WString)) :
    h.addAll (before ++ after) = (h.addAll before).addAll after :=
  List.foldl_append

theorem length_le_addAll (h : Headers) (pairs : List (WString × WString)) :
    h.data.length ≤ (h.addAll pairs).data.length := by
  induction pairs generalizing h with
  | nil => exact Nat.le_refl _
  | cons p pairs ih =>
      refine Nat.le_trans ?_ (ih (h.add p.1 p.2))
      rw [add]
      split <;> simp

/-- `size` counts every character of a block that a `DWORD` can count. -/
theorem block_eq_data {h : Headers} (hlen : h.data.length < UInt32.size) : h.block = h.data := by
  rw [block, get]
  split
  · next hget => simpa using hget.symm
  · next data hget =>
      obtain ⟨-, hdata⟩ := Option.ite_none_left_eq_some.mp hget
      cases hdata
      rw [size, UInt32.toNat_ofNat_of_lt' hlen, List.take_length]

theorem lines_intercalate {ls : List WString} (hne : ls ≠ []) (hls : ∀ l ∈ ls, l ≠ []) :
    lines (crlf.intercalate ls) = lineEnd.pieces (crlf.intercalate ls) := by
  have htext : crlf.intercalate ls ≠ [] := by
    obtain ⟨l, ls, rfl⟩ := List.exists_cons_of_ne_nil hne
    have hl := hls l List.mem_cons_self
    cases ls with
    | nil => rwa [List.intercalate_singleton]
    | cons l' ls => simp [List.intercalate_cons_cons, hl]
  rw [lines, if_neg (by simpa using htext)]

/-- The block is parsed as what was added exactly if all of that is plain. -/
theorem parse_eq_map_some_iff {pairs : List (WString × WString)}
    (hlen : (addAll {} pairs).data.length < UInt32.size) :
    parse (addAll {} pairs).block = pairs.map some ↔ ∀ p ∈ pairs, Plain p := by
  rw [block_eq_data hlen, data_addAll]
  rcases eq_or_ne pairs [] with rfl | hpairs
  · simp [parse, lines]
  have hne : pairs.map line ≠ [] := mt List.map_eq_nil_iff.mp hpairs
  have hlines : ∀ l ∈ pairs.map line, l ≠ [] := by
    intro l hl
    obtain ⟨p, -, rfl⟩ := List.mem_map.mp hl
    exact line_ne_nil p
  calc parse (crlf.intercalate (pairs.map line)) = pairs.map some
      ↔ lineEnd.pieces (crlf.intercalate (pairs.map line)) = pairs.map line ∧
          ∀ p ∈ pairs, ¬ separator <:+: p.1 := by
        rw [parse, lines_intercalate hne hlines]
        exact Delimiter.map_cut_eq_iff
    _ ↔ (∀ l ∈ pairs.map line, ¬ crlf <:+: l) ∧ ∀ p ∈ pairs, ¬ separator <:+: p.1 :=
        and_congr_left' (lineEnd.pieces_intercalate_iff hne)
    _ ↔ ∀ p ∈ pairs, Plain p := by
        rw [List.forall_mem_map, ← forall₂_and]
        refine forall₂_congr fun p _ => ?_
        rw [crlf_infix_line, not_or, and_assoc]
        rfl

/-- A function of a list that each element behind the others extends by its own
image maps the list. -/
theorem eq_map_of_concat {α β : Type*} {f : List α → List β} {g : α → β} (hnil : f [] = [])
    {xs : List α} (hconcat : ∀ before x after, xs = before ++ x :: after →
      f (before ++ [x]) = f before ++ [g x]) : f xs = xs.map g := by
  induction xs using List.reverseRecOn with
  | nil => exact hnil
  | append_singleton xs x ih =>
      rw [hconcat xs x [] rfl, List.map_append, ih, List.map_singleton]
      intro before y after hxs
      exact hconcat before y (after ++ [x]) (by rw [hxs, List.append_assoc, List.cons_append])

/-- Reading the block gives back the added headers, in order and with
duplicates, exactly if no key and no value ends its line and no key its key;
exactly then each `add` contributes its own header and no other. -/
theorem block_round_trip (pairs : List (WString × WString))
    (hlen : (addAll {} pairs).data.length < UInt32.size) :
    (parse (addAll {} pairs).block = pairs.map some ↔ ∀ p ∈ pairs, Plain p) ∧
    ((∀ before p after, pairs = before ++ p :: after →
        parse ((addAll {} before).add p.1 p.2).block =
          parse (addAll {} before).block ++ [some p]) ↔ ∀ p ∈ pairs, Plain p) := by
  refine ⟨parse_eq_map_some_iff hlen, fun h => ?_, fun h before p after hpairs => ?_⟩
  · refine (parse_eq_map_some_iff hlen).mp ?_
    refine eq_map_of_concat (f := fun pairs => parse (addAll {} pairs).block) rfl ?_
    intro before p after hpairs
    rw [addAll_append]
    exact h before p after hpairs
  · have hread : ∀ ps, ps <+: pairs → parse (addAll {} ps).block = ps.map some := by
      rintro ps ⟨rest, rfl⟩
      rw [addAll_append] at hlen
      refine (parse_eq_map_some_iff ?_).mpr fun p hp => h p (List.mem_append_left rest hp)
      exact Nat.lt_of_le_of_lt (length_le_addAll _ rest) hlen
    have hadd := hread (before ++ [p]) ⟨after, by rw [hpairs, List.append_assoc]; rfl⟩
    rw [addAll_append, List.map_append, ← hread before ⟨p :: after, hpairs.symm⟩] at hadd
    exact hadd

/-- Two headers with the same key are both read back. -/
theorem block_round_trip_duplicates :
    parse (((({} : Headers).add [97] [49]).add [97] [13, 49]).block) =
      [some ([97], [49]), some ([97], [13, 49])] :=
  (block_round_trip [([97], [49]), ([97], [13, 49])] (by decide)).1.mpr (by decide)

end Headers

/-- The two header arguments of `async_exec` are the block. -/
theorem Payload.take_headersArg (p : Payload) :
    (p.headersArg.getD []).take p.headersLength.toNat =
      (p.header.map Headers.block).getD [] := by
  rw [headersArg, headersLength]
  cases p.header with
  | none => rfl
  | some h =>
      change (h.get.getD []).take h.size.toNat = h.block
      rw [Headers.block]
      cases h.get with
      | none => exact List.take_nil
      | some data => rfl

end Winasio.ClientPayload

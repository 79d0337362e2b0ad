import Winasio.ReceiveRequest

/-!
The outcome `async_receive` reports against the buffer it leaves: the callers
read the request out of the buffer after any success.
-/

namespace Winasio.ReceiveOutcome

open Winasio.Transition
open Winasio.QueueHandle
open Winasio.ReceiveRequest

/-- The handler was invoked once; after a success the bytes of the last call,
and with them a whole `HTTP_REQUEST`, are behind the old content of the
buffer, which an error leaves as it was. -/
def OutcomeAgrees (L : Layout) (old : Bytes) (w : World) : Prop :=
  ∃ ec len, w.handled = [(ec, len)] ∧
    if ec.failed then w.buffer.committed = old
    else ∃ c r, w.answered.getLast? = some (c, r) ∧
      w.buffer.committed = old ++ r.written ∧ len = r.written.length ∧
      L.sizeofHttpRequest ≤ len

/-- The answers that made the operation try again: in a build with assertions
each size it was given exceeds the size of the old content. -/
def Rounds (ndebug : Bool) (old : Bytes) (answered : List (Call × Report)) : Prop :=
  ∀ x ∈ answered, x.2.code = ErrorCode.moreData ∧ (ndebug = true ∨ old.length < x.2.len)

/-- The states of a run in which no call returns `ERROR_MORE_DATA` itself: the
operation waits, it has completed with the outcome of its last call, or an
assertion has ended the program. -/
inductive Receiving (L : Layout) (ndebug : Bool) (old : Bytes) : World → Prop
  | waiting {w : World} {len : Nat} {init : Bool} : w.pending = [] → w.handled = [] →
      w.ndebug = ndebug → w.buffer.committed = old → L.sizeofHttpRequest ≤ len →
      len < 2 ^ 32 → Rounds ndebug old w.answered →
      Receiving L ndebug old (w.recieve L receiving len init)
  | received {w : World} {earlier : List (Call × Report)} {c : Call} {r : Report} :
      w.pending = [] → w.answered = earlier ++ [(c, r)] → Rounds ndebug old earlier →
      r.code = 0 → L.sizeofHttpRequest ≤ r.written.length →
      w.handled = [(.success, r.written.length)] →
      w.buffer.committed = old ++ r.written → Receiving L ndebug old w
  | eof {w : World} {earlier : List (Call × Report)} {c : Call} {r : Report} :
      w.pending = [] → w.answered = earlier ++ [(c, r)] → r.code = ErrorCode.handleEof →
      w.handled = [(.success, r.len)] → w.buffer.committed = old → Receiving L ndebug old w
  | failed {w : World} {earlier : List (Call × Report)} {c : Call} {r : Report} :
      w.pending = [] → w.answered = earlier ++ [(c, r)] → Rounds ndebug old earlier →
      r.code ≠ 0 → r.code ≠ ErrorCode.handleEof → r.code ≠ ErrorCode.moreData →
      w.handled = [(⟨r.code⟩, r.len)] → w.buffer.committed = old → Receiving L ndebug old w
  | aborted {w : World} : w.pending = [] → w.handled = [] → ndebug = false →
      (∃ x ∈ w.answered, x.2.code = ErrorCode.moreData ∧ x.2.len ≤ old.length) →
      Receiving L ndebug old w

theorem receiving_start (L : Layout) (ndebug : Bool) (buffer : DynamicBuffer UInt8) :
    Receiving L ndebug buffer.committed (start L ndebug buffer) := by
  rw [start_eq]
  exact .waiting rfl rfl rfl rfl (Nat.le_add_right _ _) L.initialSize_lt (by simp [Rounds])

theorem receiving_check {L : Layout} {ndebug : Bool} {old : Bytes} {w : World}
    {earlier : List (Call × Report)} {c : Call} {r : Report} (hpending : w.pending = [])
    (hhandled : w.handled = []) (hndebug : w.ndebug = ndebug)
    (hcommitted : w.buffer.committed = old) (hlen : L.sizeofHttpRequest ≤ r.len)
    (hlt : r.len < 2 ^ 32) (hearlier : Rounds ndebug old earlier)
    (hanswered : w.answered = earlier ++ [(c, r)]) (hmore : r.code = ErrorCode.moreData) :
    Receiving L ndebug old (w.check (r.len > old.length) fun w =>
      w.recieve L receiving r.len false) := by
  have hrounds : (ndebug = true ∨ old.length < r.len) → Rounds ndebug old w.answered := by
    intro hr x hx
    rw [hanswered] at hx
    rcases List.mem_append.mp hx with hx | hx
    · exact hearlier x hx
    · rw [List.mem_singleton.mp hx]
      exact ⟨hmore, hr⟩
  unfold World.check
  split
  · next hsize =>
      exact .waiting hpending hhandled hndebug hcommitted hlen hlt
        (hrounds (.inr (of_decide_eq_true hsize)))
  · next hsize =>
      split
      · next hassertions =>
          exact .waiting hpending hhandled hndebug hcommitted hlen hlt
            (hrounds (.inl (hndebug ▸ hassertions)))
      · next hassertions =>
          refine .aborted hpending hhandled ?_ ⟨(c, r), ?_, hmore, ?_⟩
          · rw [← hndebug]
            exact Bool.eq_false_iff.mpr hassertions
          · change (c, r) ∈ w.answered
            rw [hanswered]
            exact List.mem_concat_self
          · exact Nat.not_lt.mp fun h => hsize (decide_eq_true h)

theorem receiving_step {L : Layout} {ndebug : Bool} {old : Bytes} {w w' : World} {r : Report}
    (hw : Receiving L ndebug old w) (hr : r.result ≠ ErrorCode.moreData)
    (hstep : (system L).step w r = some w') : Receiving L ndebug old w' := by
  have hpending' := (pending_of_step hstep).1
  rcases hw with @⟨w, len, init, hpending, hhandled, hndebug, hcommitted, hlen, hlt, hrounds⟩ |
    ⟨hpending⟩ | ⟨hpending⟩ | ⟨hpending⟩ | ⟨hpending⟩
  · obtain ⟨hadmits, rfl⟩ := step_recieve hpending hstep
    have hkept : (answered L w len init r).buffer.committed = old :=
      (committed_prepareRequest L w len init).trans hcommitted
    have hanswered : (answered L w len init r).answered =
        w.answered ++ [(requestCall L w len init, r)] := rfl
    rcases answer_recieve hpending hlen hlt hadmits with
      ⟨hzero, hwritten, hlength, ht⟩ | ⟨heof, ht⟩ | ⟨hmore, hwritten, hgrows, ht⟩ |
      ⟨hzero, heof, hmore, ht⟩
    · rw [ht]
      refine .received hpending hanswered hrounds hzero hwritten ?_ ?_
      · change w.handled ++ [(ErrorCode.success, r.len)] = _
        rw [hhandled, hlength]
        rfl
      · change w.buffer.committed ++ r.written = _
        rw [hcommitted]
    · rw [ht]
      refine .eof hpending hanswered heof ?_ hkept
      change w.handled ++ [(ErrorCode.success, r.len)] = _
      rw [hhandled]
      rfl
    · have hqueued := queued_of_moreData hr hmore
      have hlen' : len < r.len := hgrows hqueued
      rw [ht, DynamicBuffer.size, hcommitted]
      exact receiving_check hpending hhandled hndebug hkept (by omega)
        (len_lt_of_queued hqueued) hrounds hanswered hmore
    · rw [ht]
      refine .failed hpending hanswered hrounds hzero heof hmore ?_ hkept
      change w.handled ++ [((⟨r.code⟩ : ErrorCode), r.len)] = _
      rw [hhandled]
      rfl
  all_goals exact absurd hpending hpending'

theorem receiving_run {L : Layout} {ndebug : Bool} {old : Bytes} {w w' : World}
    {script : List Report} (hw : Receiving L ndebug old w)
    (hscript : ∀ r ∈ script, r.result ≠ ErrorCode.moreData)
    (hrun : (system L).run w script = some w') : Receiving L ndebug old w' :=
  System.run_preserves_of_forall (fun _ _ _ hw hr hstep => receiving_step hw hr hstep) hw
    hscript hrun

theorem answered_check {w : World} {condition : Bool} {next : World → World}
    (hnext : ∀ w, (next w).answered = w.answered) :
    (w.check condition next).answered = w.answered := by
  unfold World.check
  split
  · exact hnext w
  · split
    · exact hnext _
    · rfl

theorem answered_invoke (L : Layout) (ec : ErrorCode) (len : Nat) (w : World) :
    (receiving.invoke L ec len w).answered = w.answered := by
  simp only [Handler.invoke]
  split
  · split
    · rfl
    · split
      · exact answered_check fun _ => rfl
      · rfl
  · rfl

theorem answered_run {L : Layout} {w w' : World} {script : List Report} (hw : Shape w)
    (hrun : (system L).run w script = some w') :
    w'.answered.map Prod.snd = w.answered.map Prod.snd ++ script := by
  induction script generalizing w with
  | nil =>
      cases hrun
      exact (List.append_nil _).symm
  | cons r script ih =>
      obtain ⟨w₁, hstep, hrest⟩ := System.run_cons_eq_some.mp hrun
      obtain ⟨hpending, rfl⟩ := pending_of_step hstep
      obtain ⟨c, -, hc⟩ := hw.resolve_left hpending
      have hanswered : (w.answer L r).answered = w.answered ++ [(c, r)] := by
        simp only [World.answer, hc, completions_eq, List.foldl_cons, List.foldl_nil]
        exact answered_check fun w => answered_invoke L _ _ w
      rw [ih (shape_answer hw r) hrest, hanswered, List.map_append, List.append_assoc]
      rfl

/-- The last outcome is not `ERROR_HANDLE_EOF`, and in a build with assertions
every size HTTP.sys asks for exceeds the size of the old content. -/
def Expected (ndebug : Bool) (old : Bytes) (script : List Report) : Prop :=
  (∀ r ∈ script, r.code ≠ ErrorCode.handleEof) ∧
    (ndebug = true ∨ ∀ r ∈ script, r.code = ErrorCode.moreData → old.length < r.len)

theorem expected_concat {ndebug : Bool} {old : Bytes} {earlier : List (Call × Report)}
    {c : Call} {r : Report} (hearlier : Rounds ndebug old earlier)
    (heof : r.code ≠ ErrorCode.handleEof) (hmore : r.code ≠ ErrorCode.moreData) :
    Expected ndebug old ((earlier ++ [(c, r)]).map Prod.snd) := by
  have hcases : ∀ r' ∈ (earlier ++ [(c, r)]).map Prod.snd,
      r' = r ∨ ∃ x ∈ earlier, x.2 = r' := by
    intro r' hr'
    rw [List.map_append] at hr'
    rcases List.mem_append.mp hr' with hr' | hr'
    · exact .inr (List.mem_map.mp hr')
    · exact .inl (List.mem_singleton.mp hr')
  constructor
  · intro r' hr'
    rcases hcases r' hr' with rfl | ⟨x, hx, rfl⟩
    · exact heof
    · rw [(hearlier x hx).1]
      decide
  · by_cases hndebug : ndebug = true
    · exact .inl hndebug
    · refine .inr fun r' hr' hcode => ?_
      rcases hcases r' hr' with rfl | ⟨x, hx, rfl⟩
      · exact absurd hcode hmore
      · exact (hearlier x hx).2.resolve_left hndebug

/-- A run is waiting, and then HTTP.sys has asked for more every time, or it is
over; then its outcome agrees with its buffer exactly if `Expected`. -/
theorem Receiving.agrees {L : Layout} {ndebug : Bool} {old : Bytes} {w : World}
    (hw : Receiving L ndebug old w) :
    if w.pending = [] then
      OutcomeAgrees L old w ↔ Expected ndebug old (w.answered.map Prod.snd)
    else w.handled = [] ∧ ∀ r ∈ w.answered.map Prod.snd, r.code = ErrorCode.moreData := by
  rcases hw with @⟨w, len, init, hpending, hhandled, -, -, -, -, hrounds⟩ |
    @⟨_, earlier, c, r, hpending, hanswered, hrounds, hcode, hwritten, hhandled, hcommitted⟩ |
    @⟨_, earlier, c, r, hpending, hanswered, hcode, hhandled, hcommitted⟩ |
    @⟨_, earlier, c, r, hpending, hanswered, hrounds, hzero, heof, hmore, hhandled, hcommitted⟩ |
    ⟨hpending, hhandled, hndebug, x, hx, hmore, hlen⟩
  · have hwaiting : (w.recieve L receiving len init).pending ≠ [] :=
      List.append_ne_nil_of_right_ne_nil w.pending (List.cons_ne_nil _ _)
    rw [if_neg hwaiting]
    refine ⟨hhandled, fun r hr => ?_⟩
    obtain ⟨x, hx, rfl⟩ := List.mem_map.mp hr
    exact (hrounds x hx).1
  · rw [if_pos hpending, hanswered]
    have heof : r.code ≠ ErrorCode.handleEof := by
      rw [hcode]
      decide
    have hmore : r.code ≠ ErrorCode.moreData := by
      rw [hcode]
      decide
    refine iff_of_true ⟨_, _, hhandled, ?_⟩ (expected_concat hrounds heof hmore)
    exact ⟨c, r, by rw [hanswered, List.getLast?_concat], hcommitted, rfl, hwritten⟩
  · rw [if_pos hpending, hanswered]
    apply iff_of_false
    · rintro ⟨ec, len, hhandled', hagrees⟩
      obtain ⟨rfl, rfl⟩ : ec = .success ∧ len = r.len := by
        rw [hhandled] at hhandled'
        simpa [eq_comm] using hhandled'
      obtain ⟨c', r', -, hcommitted', hlen, hsize⟩ := hagrees
      have hnil : r'.written = [] := by
        rw [hcommitted] at hcommitted'
        exact List.self_eq_append_right.mp hcommitted'
      have := L.requestId_le
      rw [hlen, hnil, List.length_nil] at hsize
      omega
    · rintro ⟨heof, -⟩
      exact heof r (by simp) hcode
  · rw [if_pos hpending, hanswered]
    have hfailed : (⟨r.code⟩ : ErrorCode).failed = true := ErrorCode.failed_iff.mpr hzero
    refine iff_of_true ⟨_, _, hhandled, ?_⟩ (expected_concat hrounds heof hmore)
    rw [if_pos hfailed]
    exact hcommitted
  · rw [if_pos hpending]
    apply iff_of_false
    · rintro ⟨ec, len, hhandled', -⟩
      rw [hhandled] at hhandled'
      cases hhandled'
    · rintro ⟨-, hsizes⟩
      have := (hsizes.resolve_left (by simp [hndebug])) x.2 (List.mem_map_of_mem hx) hmore
      omega

/-- Whatever the buffer holds: while HTTP.sys asks for more by packet the
operation goes on, and the outcome it ends with agrees with its buffer exactly
if that outcome is not `ERROR_HANDLE_EOF` and no assertion ends the program. -/
theorem outcomeAgrees_iff (L : Layout) (ndebug : Bool) (buffer : DynamicBuffer UInt8)
    (script : List Report) (w : World)
    (hscript : ∀ r ∈ script, r.result ≠ ErrorCode.moreData)
    (hrun : (system L).run (start L ndebug buffer) script = some w) :
    if w.pending = [] then
      OutcomeAgrees L buffer.committed w ↔ Expected ndebug buffer.committed script
    else w.handled = [] ∧ ∀ r ∈ script, r.code = ErrorCode.moreData := by
  have hanswered : w.answered.map Prod.snd = script := by
    rw [start_eq] at hrun
    exact answered_run (shape_recieve rfl _ _) hrun
  have hagrees := (receiving_run (receiving_start L ndebug buffer) hscript hrun).agrees
  rwa [hanswered] at hagrees

/-- A request that arrives in the second call, behind a byte that was there. -/
theorem outcomeAgrees_packet :
    ∃ w, (system .x64).run (start .x64 false (.ofVector [9]))
        [{ result := ErrorCode.ioPending, status := ErrorCode.moreData, length := 3000
           written := List.replicate 864 7 },
          { result := 0, length := 900, written := List.replicate 900 7 }] = some w ∧
      OutcomeAgrees .x64 [9] w := by
  have hrun : (((system .x64).run (start .x64 false (.ofVector [9]))
      [{ result := ErrorCode.ioPending, status := ErrorCode.moreData, length := 3000
         written := List.replicate 864 7 },
        { result := 0, length := 900, written := List.replicate 900 7 }]).map fun w =>
          w.pending.length) = some 0 := by
    decide +kernel
  obtain ⟨w, hw, hpending⟩ := Option.map_eq_some_iff.mp hrun
  refine ⟨w, hw, ?_⟩
  have hagrees := outcomeAgrees_iff .x64 false (.ofVector [9]) _ w (by decide) hw
  rw [if_pos (List.eq_nil_of_length_eq_zero hpending)] at hagrees
  exact hagrees.mpr ⟨by decide, .inr (by decide)⟩

/-- `ERROR_HANDLE_EOF` is reported as a success, with an empty buffer. -/
theorem not_outcomeAgrees_eof :
    ∃ w, (system .x64).run (start .x64 true {}) [{ result := ErrorCode.handleEof }] = some w ∧
      w.handled = [(.success, 0)] ∧ w.buffer.committed = [] ∧ ¬ OutcomeAgrees .x64 [] w := by
  have hrun : (((system .x64).run (start .x64 true {})
      [{ result := ErrorCode.handleEof }]).map fun w => (w.handled, w.buffer.committed)) =
      some ([(.success, 0)], []) := by
    decide +kernel
  obtain ⟨w, hw, hend⟩ := Option.map_eq_some_iff.mp hrun
  obtain ⟨hhandled, hcommitted⟩ := Prod.mk.inj hend
  refine ⟨w, hw, hhandled, hcommitted, ?_⟩
  rintro ⟨ec, len, hhandled', hagrees⟩
  obtain ⟨rfl, rfl⟩ : ec = .success ∧ len = 0 := by
    rw [hhandled] at hhandled'
    simpa [eq_comm] using hhandled'
  obtain ⟨c, r, -, -, -, hsize⟩ := hagrees
  exact absurd hsize (by decide)

end Winasio.ReceiveOutcome

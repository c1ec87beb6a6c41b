import Silent.Http3Exchange

/-! The loop of `handle_http3_request_impl` that sends the body of a response: each data
frame is cut into payloads of at most the configured size, with a yield whenever enough was
sent. The loop over one frame has no bound of its own; it runs on fuel. -/
namespace Silent.Http3Chunks
open ByteText Http3Exchange

structure ConnectionLimits where
  h3ChunkSize : Option Nat
  h3YieldBytes : Option Nat

def ConnectionLimits.chunkSize (self : ConnectionLimits) : Nat := self.h3ChunkSize.getD (16 * 1024)

def ConnectionLimits.yieldBytes (self : ConnectionLimits) : Nat := self.h3YieldBytes.getD (256 * 1024)

inductive Frame where
  | data (data : Bytes)
  | trailers (fields : List (Text × Text))

abbrev Body := List (Except Text Frame)

structure Sending where
  payloads : List (List UInt8)
  sentSinceYield : Nat
  yields : Nat

def begin : Sending := ⟨[], 0, 0⟩

abbrev Transport := Nat → Except Text Unit

def Sending.payload (s : Sending) (chunk : List UInt8) : Sending := {s with payloads := s.payloads ++ [chunk]}

def Sending.counted (limits : ConnectionLimits) (s : Sending) (chunkLen : Nat) : Sending :=
  let sent := saturatingAdd s.sentSinceYield chunkLen
  if limits.yieldBytes ≤ sent then {s with sentSinceYield := 0, yields := s.yields + 1} else {s with sentSinceYield := sent}

def sendFrame (limits : ConnectionLimits) (answers : Transport) : Nat → List UInt8 → Sending → Option (Except Text Unit × Sending)
  | 0, _, _ => none
  | fuel + 1, buf, s =>
      if buf = [] then some (.ok (), s)
      else
        let chunkLen := min buf.length limits.chunkSize
        let chunk := buf.take chunkLen
        match answers s.payloads.length with
        | .error err => some (.error err, s.payload chunk)
        | .ok () => sendFrame limits answers fuel (buf.drop chunkLen) ((s.payload chunk).counted limits chunkLen)

def sendBody (limits : ConnectionLimits) (answers : Transport) (fuel : Nat) : Body → Sending → Option (Except Text Unit × Sending)
  | [], s => some (.ok (), s)
  | .error err :: _, s => some (.error (bodyError ++ err), s)
  | .ok (.trailers _) :: rest, s => sendBody limits answers fuel rest s
  | .ok (.data data) :: rest, s =>
      if data.data = [] then sendBody limits answers fuel rest s
      else
        match sendFrame limits answers fuel data.data s with
        | none => none
        | some (.error err, s) => some (.error err, s)
        | some (.ok (), s) => sendBody limits answers fuel rest s

def bodyData : Body → List UInt8
  | [] => []
  | .error _ :: _ => []
  | .ok (.trailers _) :: rest => bodyData rest
  | .ok (.data data) :: rest => data.data ++ bodyData rest

def Refuses (answers : Transport) : Prop := ∃ call err, answers call = .error err

def Breaks (body : Body) : Prop := ∃ err, .error err ∈ body

structure Delivered (size : Nat) (wanted : List UInt8) (excuse : Prop) (payloads : List (List UInt8)) (result : Except Text Unit) :
    Prop where
  inOrder : payloads.flatten <+: wanted
  whole : result = .ok () → payloads.flatten = wanted
  sized : ∀ payload ∈ payloads, payload ≠ [] ∧ payload.length ≤ size
  failure : result = .ok () ∨ excuse

/- The loop ends, and everything is sent unless the body or the transport fails. -/
def Lossless (limits : ConnectionLimits) (answers : Transport) (body : Body) : Prop :=
  ∃ enough result s, (∀ fuel, enough ≤ fuel → sendBody limits answers fuel body begin = some (result, s)) ∧
    Delivered limits.chunkSize (bodyData body) (Refuses answers ∨ Breaks body) s.payloads result

section
variable {limits : ConnectionLimits} {answers : Transport}

theorem countedPayloads (s : Sending) (chunkLen : Nat) : (s.counted limits chunkLen).payloads = s.payloads := by
  unfold Sending.counted
  dsimp only
  split <;> rfl

theorem deliveredNone (size : Nat) (wanted : List UInt8) {excuse : Prop} (excused : excuse) (err : Text) :
    Delivered size wanted excuse [] (.error err) :=
  ⟨List.nil_prefix, nofun, nofun, .inr excused⟩

theorem deliveredMore {size : Nat} {first rest : List UInt8} {excuse wider : Prop} {payloads more : List (List UInt8)}
    {result : Except Text Unit} (front : Delivered size first excuse payloads (.ok ()))
    (back : Delivered size rest wider more result) : Delivered size (first ++ rest) wider (payloads ++ more) result := by
  have all := front.whole rfl
  constructor
  · rw [List.flatten_append, all]
    exact (List.prefix_append_right_inj first).mpr back.inOrder
  · intro fine
    rw [List.flatten_append, all, back.whole fine]
  · exact List.forall_mem_append.mpr ⟨front.sized, back.sized⟩
  · exact back.failure

theorem deliveredWider {size : Nat} {wanted : List UInt8} {excuse wider : Prop} {payloads : List (List UInt8)}
    {result : Except Text Unit} (narrow : Delivered size wanted excuse payloads result) (weaker : excuse → wider) :
    Delivered size wanted wider payloads result :=
  ⟨narrow.inOrder, narrow.whole, narrow.sized, narrow.failure.imp_right weaker⟩

theorem deliveredPart {size : Nat} {first : List UInt8} (rest : List UInt8) {excuse : Prop} {payloads : List (List UInt8)}
    {err : Text} (front : Delivered size first excuse payloads (.error err)) :
    Delivered size (first ++ rest) excuse payloads (.error err) :=
  ⟨front.inOrder.trans (List.prefix_append first rest), nofun, front.sized, front.failure⟩

theorem frameSent (answers : Transport) (positive : 0 < limits.chunkSize) {fuel : Nat} {buf : List UInt8} (enough : buf.length < fuel) (s : Sending) :
    ∃ result t more, sendFrame limits answers fuel buf s = some (result, t) ∧ t.payloads = s.payloads ++ more ∧
      Delivered limits.chunkSize buf (Refuses answers) more result := by
  induction fuel generalizing buf s with
  | zero => cases enough
  | succ fuel ih =>
    unfold sendFrame
    by_cases empty : buf = []
    · rw [if_pos empty]
      subst empty
      exact ⟨.ok (), s, [], rfl, by simp, ⟨List.prefix_rfl, fun _ => rfl, nofun, .inl rfl⟩⟩
    · rw [if_neg empty]
      have nonempty := List.length_pos_iff.mpr empty
      generalize length : min buf.length limits.chunkSize = chunkLen
      have taken : (buf.take chunkLen).length = chunkLen := by rw [List.length_take]; omega
      have chunk : buf.take chunkLen ≠ [] ∧ (buf.take chunkLen).length ≤ limits.chunkSize := by
        refine ⟨fun nothing => ?_, by omega⟩
        rw [nothing, List.length_nil] at taken
        omega
      have split : buf.take chunkLen ++ buf.drop chunkLen = buf := List.take_append_drop chunkLen buf
      dsimp only
      cases answer : answers s.payloads.length with
      | error err =>
        refine ⟨.error err, _, [buf.take chunkLen], rfl, rfl, ?_, nofun, ?_, .inr ⟨_, _, answer⟩⟩
        · rw [List.flatten_singleton]
          exact List.take_prefix chunkLen buf
        · exact List.forall_mem_singleton.mpr chunk
      | ok _ =>
        have less : (buf.drop chunkLen).length < fuel := by rw [List.length_drop]; omega
        obtain ⟨result, t, more, ran, payloads, delivered⟩ := ih less ((s.payload (buf.take chunkLen)).counted limits chunkLen)
        rw [countedPayloads] at payloads
        have front : Delivered limits.chunkSize (buf.take chunkLen) False [buf.take chunkLen] (.ok ()) :=
          ⟨List.flatten_singleton ▸ List.prefix_rfl, fun _ => List.flatten_singleton, List.forall_mem_singleton.mpr chunk, .inl rfl⟩
        have joined := deliveredMore front delivered
        rw [split] at joined
        exact ⟨result, t, buf.take chunkLen :: more, ran, by rw [payloads, Sending.payload]; simp, joined⟩

theorem bodySent (answers : Transport) {fuel : Nat} {body : Body} (able : 0 < limits.chunkSize ∨ bodyData body = [])
    (enough : (bodyData body).length < fuel) (s : Sending) :
    ∃ result t more, sendBody limits answers fuel body s = some (result, t) ∧ t.payloads = s.payloads ++ more ∧
      Delivered limits.chunkSize (bodyData body) (Refuses answers ∨ Breaks body) more result := by
  have later {rest : Body} {item : Except Text Frame} : (Refuses answers ∨ Breaks rest) → Refuses answers ∨ Breaks (item :: rest) :=
    fun failed => failed.imp_right fun ⟨err, among⟩ => ⟨err, List.mem_cons_of_mem _ among⟩
  induction body generalizing s with
  | nil => exact ⟨_, s, [], rfl, (List.append_nil _).symm, List.prefix_rfl, fun _ => rfl, nofun, .inl rfl⟩
  | cons item rest ih =>
    match item with
    | .error err =>
      exact ⟨_, s, [], rfl, (List.append_nil _).symm, deliveredNone _ _ (.inr ⟨err, List.mem_cons_self⟩) _⟩
    | .ok (.trailers fields) =>
      obtain ⟨result, t, more, ran, payloads, delivered⟩ := ih able enough s
      exact ⟨result, t, more, ran, payloads, deliveredWider delivered later⟩
    | .ok (.data data) =>
      rw [bodyData, List.length_append] at enough
      rw [bodyData] at able
      rw [sendBody, bodyData]
      by_cases empty : data.data = []
      · rw [empty, List.nil_append] at able
        rw [if_pos empty, empty, List.nil_append]
        obtain ⟨result, t, more, ran, payloads, delivered⟩ := ih able (by omega) s
        exact ⟨result, t, more, ran, payloads, deliveredWider delivered later⟩
      · rw [if_neg empty]
        have positive : 0 < limits.chunkSize := able.resolve_right fun nothing => empty (List.append_eq_nil_iff.mp nothing).1
        have within : data.data.length < fuel := by omega
        obtain ⟨result, t, more, ran, payloads, delivered⟩ := frameSent answers positive within s
        rw [ran]
        cases result with
        | error err => exact ⟨_, t, more, rfl, payloads, deliveredWider (deliveredPart _ delivered) .inl⟩
        | ok _ =>
          obtain ⟨result, u, others, ended, others', below⟩ := ih (.inl positive) (by omega) t
          refine ⟨result, u, more ++ others, ended, ?_, deliveredWider (deliveredMore delivered below) later⟩
          rw [others', payloads, List.append_assoc]

theorem frameFuel {fuel enough : Nat} (more : fuel ≤ enough) {buf : List UInt8} {s : Sending} {ended : Except Text Unit × Sending}
    (ran : sendFrame limits answers fuel buf s = some ended) : sendFrame limits answers enough buf s = some ended := by
  induction fuel generalizing enough buf s with
  | zero => cases ran
  | succ fuel ih =>
    obtain ⟨enough, rfl⟩ := Nat.exists_eq_add_one_of_ne_zero (by omega : enough ≠ 0)
    unfold sendFrame at ran ⊢
    by_cases empty : buf = []
    · rw [if_pos empty] at ran ⊢
      exact ran
    · rw [if_neg empty] at ran ⊢
      cases answer : answers s.payloads.length with
      | error err =>
        simp only [answer] at ran ⊢
        exact ran
      | ok _ =>
        simp only [answer] at ran ⊢
        exact ih (by omega) ran

theorem bodyFuel {fuel enough : Nat} (more : fuel ≤ enough) {body : Body} {s : Sending} {ended : Except Text Unit × Sending}
    (ran : sendBody limits answers fuel body s = some ended) : sendBody limits answers enough body s = some ended := by
  induction body generalizing s with
  | nil => exact ran
  | cons item rest ih =>
    match item with
    | .error err => exact ran
    | .ok (.trailers fields) => exact ih ran
    | .ok (.data data) =>
      rw [sendBody] at ran ⊢
      by_cases empty : data.data = []
      · rw [if_pos empty] at ran ⊢
        exact ih ran
      · rw [if_neg empty] at ran ⊢
        cases sent : sendFrame limits answers fuel data.data s with
        | none =>
          rw [sent] at ran
          cases ran
        | some first =>
          obtain ⟨result, t⟩ := first
          rw [sent] at ran
          rw [frameFuel more sent]
          cases result with
          | error err => exact ran
          | ok _ => exact ih ran

theorem frameStuck (zero : limits.chunkSize = 0) {fuel : Nat} {buf : List UInt8} (full : buf ≠ []) {s t : Sending}
    {result : Except Text Unit} (ran : sendFrame limits answers fuel buf s = some (result, t)) :
    result ≠ .ok () ∧ [] ∈ t.payloads := by
  induction fuel generalizing s with
  | zero => cases ran
  | succ fuel ih =>
    unfold sendFrame at ran
    rw [if_neg full] at ran
    simp only [zero, Nat.min_zero, List.take_zero, List.drop_zero] at ran
    split at ran
    · cases ran
      exact ⟨nofun, List.mem_append_right _ (List.mem_singleton.mpr rfl)⟩
    · exact ih ran

theorem bodyStuck (zero : limits.chunkSize = 0) {fuel : Nat} {body : Body} (full : bodyData body ≠ []) {s t : Sending}
    {result : Except Text Unit} (ran : sendBody limits answers fuel body s = some (result, t)) : [] ∈ t.payloads := by
  induction body generalizing s with
  | nil => exact absurd rfl full
  | cons item rest ih =>
    match item with
    | .error err => exact absurd rfl full
    | .ok (.trailers fields) => exact ih full ran
    | .ok (.data data) =>
      rw [bodyData] at full
      rw [sendBody] at ran
      by_cases empty : data.data = []
      · rw [if_pos empty] at ran
        rw [empty, List.nil_append] at full
        exact ih full ran
      · rw [if_neg empty] at ran
        cases sent : sendFrame limits answers fuel data.data s with
        | none =>
          rw [sent] at ran
          cases ran
        | some ended =>
          obtain ⟨first, u⟩ := ended
          obtain ⟨failed, stuck⟩ := frameStuck zero empty sent
          rw [sent] at ran
          cases first with
          | error err =>
            cases ran
            exact stuck
          | ok _ => exact absurd rfl failed

theorem chunkSizeZero : limits.chunkSize = 0 ↔ limits.h3ChunkSize = some 0 := by
  unfold ConnectionLimits.chunkSize
  cases limits.h3ChunkSize <;> simp

theorem losslessUnlessZero (limits : ConnectionLimits) (answers : Transport) (body : Body) :
    Lossless limits answers body ↔ limits.h3ChunkSize ≠ some 0 ∨ bodyData body = [] := by
  constructor
  · rintro ⟨enough, result, s, ran, delivered⟩
    by_contra neither
    obtain ⟨configured, full⟩ := not_or.mp neither
    have zero := chunkSizeZero.mpr (not_not.mp configured)
    exact (delivered.sized [] (bodyStuck zero full (ran enough (Nat.le_refl _)))).1 rfl
  · intro able
    have able' : 0 < limits.chunkSize ∨ bodyData body = [] :=
      able.imp_left fun configured => Nat.pos_of_ne_zero fun zero => configured (chunkSizeZero.mp zero)
    obtain ⟨result, s, more, ran, payloads, delivered⟩ :=
      bodySent answers able' (Nat.lt_succ_self (bodyData body).length) begin
    exact ⟨_, result, s, fun fuel more => bodyFuel more ran, by rwa [payloads]⟩

end

def unchunked : ConnectionLimits := ⟨some 0, none⟩

def single : Body := [.ok (.data ⟨[1], by decide⟩)]

theorem zeroChunkNeverEnds : ¬Lossless unchunked (fun _ => .ok ()) single := by
  rintro ⟨enough, result, s, ran, delivered⟩
  have stuck : [] ∈ s.payloads := bodyStuck rfl (by decide) (ran enough (Nat.le_refl _))
  exact (delivered.sized [] stuck).1 rfl

end Silent.Http3Chunks

import MiniWebServer.Buffer
import MiniWebServer.Library.Transition

/-!
# Buffers are queues of bytes

Any number of buffers are used through the calls of their class, with what the
kernel answers to those that read or write a socket. The purpose of a buffer is
stated beside it: `Queues` appends at one end, hands out at the other, and knows
of no capacity, no cursor and no placement. Every run of calls on the buffers is
a run of the same calls on the queues.
-/

namespace MiniWebServer

open Transition

/-- A call of a member function on one buffer of a family, or between two. -/
inductive BufferCall (ι : Type) where
  | dataIn (target : ι) (s : List UInt8)
  | dataOut (source : ι) (count : ℕ)
  | retrieve (source : ι) (n : ℕ)
  /-- The bytes that wait in the socket, and what `readv` returned. -/
  | sckToBuffer (target : ι) (waiting : List UInt8) (n : ℤ)
  /-- What `write` returned for `count` bytes. -/
  | bufferToSck (source : ι) (count : ℕ) (res : ℤ)
  | bufToBuf (source peer : ι) (count : ℕ)

/-- A family of queues, and what was handed out of them. -/
structure Queues (ι : Type) where
  contents : ι → List UInt8
  handedOut : List (ι × List UInt8) := []

/-- A family of buffers, and the bytes that left them for memory or a socket. -/
structure Buffers (ι : Type) where
  buffers : ι → Buffer
  handedOut : List (ι × List UInt8) := []

/-- `sizeof(extrabuf)`. -/
def extrabufSize : ℕ := 65536

variable {ι : Type} [DecidableEq ι]

namespace Queues

def append (queues : Queues ι) (target : ι) (bytes : List UInt8) : Queues ι :=
  { queues with
    contents := Function.update queues.contents target (queues.contents target ++ bytes) }

def drop (queues : Queues ι) (source : ι) (count : ℕ) : Queues ι :=
  { queues with
    contents := Function.update queues.contents source ((queues.contents source).drop count) }

theorem contents_drop_of_ne (queues : Queues ι) {source other : ι} (differs : other ≠ source)
    (count : ℕ) : (queues.drop source count).contents other = queues.contents other :=
  Function.update_of_ne differs _ _

/-- Take the first bytes out. -/
def handOut (queues : Queues ι) (source : ι) (count : ℕ) : Queues ι :=
  { queues.drop source count with
    handedOut := queues.handedOut ++ [(source, (queues.contents source).take count)] }

/-- What a call is for. A failing read or write has a negative result, which moves nothing. -/
def step (queues : Queues ι) : BufferCall ι → Option (Queues ι)
  | .dataIn target s => some (queues.append target s)
  | .dataOut source count =>
      if count ≤ (queues.contents source).length then some (queues.handOut source count) else none
  | .retrieve source n =>
      if n ≤ (queues.contents source).length then some (queues.drop source n) else none
  | .sckToBuffer target waiting n => some (queues.append target (waiting.take n.toNat))
  | .bufferToSck source count res =>
      if count ≤ (queues.contents source).length ∧ res ≤ count then
        some (queues.handOut source res.toNat)
      else none
  | .bufToBuf source peer count =>
      if source ≠ peer ∧ count ≤ (queues.contents source).length then
        some ((queues.drop source count).append peer ((queues.contents source).take count))
      else none

end Queues

namespace Buffers

/-- The readable bytes of every buffer. -/
def queues (family : Buffers ι) : Queues ι where
  contents := fun i => (family.buffers i).peek
  handedOut := family.handedOut

/-- What the callers and the kernel keep to: no count exceeds `readable()`, and
no result exceeds what was offered. -/
def Allowed (family : Buffers ι) : BufferCall ι → Prop
  | .dataIn _ _ => True
  | .dataOut source count => count ≤ (family.buffers source).readable
  | .retrieve source n => n ≤ (family.buffers source).readable
  | .sckToBuffer target waiting n =>
      n ≤ waiting.length ∧ n ≤ (family.buffers target).writable + extrabufSize
  | .bufferToSck source count res => count ≤ (family.buffers source).readable ∧ res ≤ count
  | .bufToBuf source peer count => source ≠ peer ∧ count ≤ (family.buffers source).readable

def put (family : Buffers ι) (target : ι) (buffer : Buffer) : Buffers ι :=
  { family with buffers := Function.update family.buffers target buffer }

def handing (family : Buffers ι) (source : ι) (bytes : List UInt8) : Buffers ι :=
  { family with handedOut := family.handedOut ++ [(source, bytes)] }

/-- A call that keeps to what is allowed. -/
def step (family : Buffers ι) : BufferCall ι → Option (Buffers ι)
  | .dataIn target s => some (family.put target ((family.buffers target).dataIn s))
  | .dataOut source count =>
      if enough : count ≤ (family.buffers source).readable then
        let (bytes, buffer) := (family.buffers source).dataOut count enough
        some ((family.put source buffer).handing source bytes)
      else none
  | .retrieve source n =>
      if enough : n ≤ (family.buffers source).readable then
        some (family.put source ((family.buffers source).retrieve n enough))
      else none
  | .sckToBuffer target waiting n =>
      if n ≤ waiting.length ∧ n ≤ (family.buffers target).writable + extrabufSize then
        if n < 0 then some family
        else some (family.put target ((family.buffers target).sckToBuffer (waiting.take n.toNat)))
      else none
  | .bufferToSck source count res =>
      if enough : count ≤ (family.buffers source).readable ∧ res ≤ count then
        some ((family.put source ((family.buffers source).bufferToSck count enough.1 res)).handing
          source (((family.buffers source).front count).take res.toNat))
      else none
  | .bufToBuf source peer count =>
      if enough : source ≠ peer ∧ count ≤ (family.buffers source).readable then
        let (buffer, other) := (family.buffers source).bufToBuf (family.buffers peer) count enough.2
        some ((family.put source buffer).put peer other)
      else none

/-- A call that is allowed returns. -/
theorem exists_step {family : Buffers ι} {call : BufferCall ι} (allowed : family.Allowed call) :
    ∃ next, family.step call = some next := by
  cases call with
  | dataIn target s => exact ⟨_, rfl⟩
  | dataOut source count => exact ⟨_, dif_pos allowed⟩
  | retrieve source n => exact ⟨_, dif_pos allowed⟩
  | sckToBuffer target waiting n =>
      rcases allowed with ⟨waits, offered⟩
      rw [step, if_pos ⟨waits, offered⟩]
      split
      · exact ⟨_, rfl⟩
      · exact ⟨_, rfl⟩
  | bufferToSck source count res => exact ⟨_, dif_pos allowed⟩
  | bufToBuf source peer count => exact ⟨_, dif_pos allowed⟩

theorem queues_put (family : Buffers ι) (target : ι) (buffer : Buffer) :
    (family.put target buffer).queues =
      { family.queues with
        contents := Function.update family.queues.contents target buffer.peek } := by
  unfold queues put
  congr 1
  funext i
  by_cases same : i = target
  · subst same
    simp
  · simp [same]

omit [DecidableEq ι] in
theorem queues_handing (family : Buffers ι) (source : ι) (bytes : List UInt8) :
    (family.handing source bytes).queues =
      { family.queues with handedOut := family.handedOut ++ [(source, bytes)] } :=
  rfl

/-- A call on the buffers is the same call on their queues. -/
theorem queues_step {family next : Buffers ι} {call : BufferCall ι}
    (stepped : family.step call = some next) : family.queues.step call = some next.queues := by
  have size : ∀ i, (family.queues.contents i).length = (family.buffers i).readable :=
    fun i => Buffer.length_peek _
  cases call with
  | dataIn target s =>
      cases stepped
      rw [queues_put, Buffer.peek_dataIn]
      rfl
  | dataOut source count =>
      simp only [step, Option.dite_none_right_eq_some, Option.some.injEq] at stepped
      rcases stepped with ⟨enough, rfl⟩
      rw [Queues.step, size, if_pos enough, queues_handing, queues_put, Buffer.peek_dataOut,
        Buffer.dataOut, Buffer.front_eq_take_peek enough]
      rfl
  | retrieve source n =>
      simp only [step, Option.dite_none_right_eq_some, Option.some.injEq] at stepped
      rcases stepped with ⟨enough, rfl⟩
      rw [Queues.step, size, if_pos enough, queues_put, Buffer.peek_retrieve]
      rfl
  | sckToBuffer target waiting n =>
      simp only [step, Option.ite_none_right_eq_some] at stepped
      rcases stepped with ⟨_, stepped⟩
      split at stepped
      · next failed =>
        cases stepped
        have nothing : n.toNat = 0 := by omega
        simp [Queues.step, Queues.append, nothing]
      · cases stepped
        rw [queues_put, Buffer.peek_sckToBuffer]
        rfl
  | bufferToSck source count res =>
      simp only [step, Option.dite_none_right_eq_some, Option.some.injEq] at stepped
      rcases stepped with ⟨⟨enough, within⟩, rfl⟩
      have taken : min res.toNat count = res.toNat := by omega
      rw [Queues.step, size, if_pos ⟨enough, within⟩, queues_handing, queues_put,
        Buffer.peek_bufferToSck, Buffer.front_eq_take_peek enough, List.take_take, taken]
      rfl
  | bufToBuf source peer count =>
      simp only [step, Option.dite_none_right_eq_some, Option.some.injEq] at stepped
      rcases stepped with ⟨⟨distinct, enough⟩, rfl⟩
      have moved := Buffer.peek_bufToBuf (family.buffers source) (family.buffers peer) count enough
      rw [Queues.step, size, if_pos ⟨distinct, enough⟩, queues_put, queues_put, moved.1, moved.2,
        Queues.append, Queues.contents_drop_of_ne _ distinct.symm]
      rfl

/-- After any calls the cursors are in order and the buffers hold what queues
would hold, and have handed out what queues would have handed out. A call that
is allowed returns: once the bytes are moved or the buffer has grown, they fit,
so that the recursion of `dataIn` and `bufToBuf` ends with the call it makes. -/
theorem buffers_are_queues {start final : Buffers ι} {calls : List (BufferCall ι)}
    (ran : run step anyAction start calls = some final) :
    (∀ i, (final.buffers i).readIdx ≤ (final.buffers i).writeIdx ∧
      (final.buffers i).writeIdx ≤ (final.buffers i).buf.length) ∧
    run Queues.step anyAction start.queues calls = some final.queues ∧
    (∀ call, final.Allowed call → ∃ next, final.step call = some next) ∧
    ∀ (buffer : Buffer) (count : ℕ),
      (count ≤ buffer.writable + buffer.readIdx → count ≤ buffer.compact.writable) ∧
      count ≤ (buffer.resize (buffer.writeIdx + count) (Nat.le_add_right _ _)).writable := by
  refine ⟨fun i => ⟨(final.buffers i).readIdx_le_writeIdx, (final.buffers i).writeIdx_le_size⟩,
    run_simulates queues queues_step ran, fun _ => exists_step, ?_⟩
  intro buffer count
  constructor
  · intro reuse
    rwa [Buffer.writable_compact]
  · exact buffer.le_writable_resize count _

/-- Bytes come from a socket, move to another buffer and leave it in two parts. -/
theorem buffers_are_queues_echo :
    ∃ final : Buffers Bool,
      run step anyAction { buffers := fun _ => .init }
          [.sckToBuffer false [1, 2, 3, 4] 3, .bufToBuf false true 3, .bufferToSck true 3 2,
            .bufferToSck true 1 (-1), .dataOut true 1] = some final ∧
        final.handedOut = [(true, [1, 2]), (true, []), (true, [3])] := by
  have returned : (run step anyAction { buffers := fun _ => Buffer.init }
      [.sckToBuffer false [1, 2, 3, 4] 3, .bufToBuf false true 3, .bufferToSck true 3 2,
        .bufferToSck true 1 (-1), .dataOut true 1]).isSome = true := by
    decide +kernel
  rcases Option.isSome_iff_exists.mp returned with ⟨final, ran⟩
  have queued := congrArg (Option.map Queues.handedOut) (buffers_are_queues ran).2.1
  rw [Option.map_some] at queued
  exact ⟨final, ran, (Option.some.inj (Eq.trans (by decide +kernel) queued)).symm⟩

end Buffers

end MiniWebServer

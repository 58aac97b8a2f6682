import HttpServer.ReadBuffer
import HttpServer.Respond

set_option autoImplicit false

/-!
# The counter of the server under its functions

The functions that allocate and free add to `server->memused` and never look at it: with another count they do the
same, and the difference stays.
-/
namespace HttpServer.SharedCounter
open MachineInt ReadBuffer RequestUtil PrintBuffer Respond

section Counter

variable {α : Type*} (d : ℤ)

/-- A result with a counter that is higher by `d`. -/
def raise (r : α × ℤ) : α × ℤ := (r.1, r.2 + d)

theorem some_raise {a : α} {m n : ℤ} (h : n = m + d) : some (a, n) = (some (a, m)).map (raise d) := by
  rw [h]
  rfl

theorem hsBufferFree_raise (buffer : HshBufferS) (memused : ℤ) :
    hsBufferFree buffer (memused + d) = raise d (hsBufferFree buffer memused) := by
  unfold hsBufferFree raise
  split
  · exact Prod.ext rfl (by ring)
  · rfl

theorem growFull_raise (max : ℤ) (blk : NewBlock) (b : HshBufferS) (memused : ℤ) :
    growFull max blk b (memused + d) = (growFull max blk b memused).map (raise d) := by
  unfold growFull
  split
  · dsimp only
    split
    · rfl
    · exact some_raise d (by ring)
  · rfl

theorem hsReadIntoBuffer_raise (max : ℤ) (calls : List ReadCall) (b : HshBufferS) (memused : ℤ) :
    hsReadIntoBuffer max calls b (memused + d) =
      (hsReadIntoBuffer max calls b memused).map fun r => { r with serverMemused := r.serverMemused + d } := by
  induction calls generalizing b memused with
  | nil => rfl
  | cons call calls ih =>
    unfold hsReadIntoBuffer
    split
    · dsimp only
      rw [growFull_raise]
      cases growFull max call.blk (if call.result.count > 0 then append b call.result.received else b) memused with
      | none => rfl
      | some r =>
        dsimp only [Option.map_some, raise]
        split
        · exact ih r.1 r.2
        · split <;> rfl
    · rfl

theorem grwprintf_raise (blk : NewBlock) (text : List UInt8) (ctx : GrwprintfT) (memused : ℤ) :
    grwprintf blk text ctx (memused + d) = (grwprintf blk text ctx memused).map (raise d) := by
  unfold grwprintf
  cases vsnprintf ctx text with
  | none => rfl
  | some r =>
    dsimp only
    split
    · cases growCapacity (wrap32 (r.2 + r.1.size)) 34 r.1.capacity with
      | none => rfl
      | some capacity =>
        dsimp only
        split
        · rfl
        · cases vsnprintf (r.1.realloc blk capacity) text with
          | none => rfl
          | some r' => exact some_raise d (by ring)
    · rfl

theorem grwmemcpy_raise (blk : NewBlock) (src : List UInt8) (size : ℤ) (ctx : GrwprintfT) (memused : ℤ) :
    grwmemcpy blk src size ctx (memused + d) = (grwmemcpy blk src size ctx memused).map (raise d) := by
  unfold grwmemcpy
  dsimp only
  split
  · dsimp only
    split
    · exact some_raise d (by ring)
    · rfl
  · dsimp only
    split <;> rfl

end Counter

section Printing

variable (d : ℤ)

def raisePrinting (s : Printing) : Printing := { s with memused := s.memused + d }

theorem init_raise (blks : ℕ → NewBlock) (memused : ℤ) :
    Printing.init blks (memused + d) = raisePrinting d (Printing.init blks memused) := by
  unfold Printing.init grwprintfInit raisePrinting
  dsimp only
  rw [add_right_comm]

theorem printf_raise (text : List UInt8) (s : Printing) :
    (raisePrinting d s).printf text = (s.printf text).map (raisePrinting d) := by
  unfold Printing.printf
  change (grwprintf (s.blks 0) text s.ctx (s.memused + d)).map _ = _
  rw [grwprintf_raise, Option.map_map, Option.map_map]
  rfl

theorem memcpy_raise (src : List UInt8) (size : ℤ) (s : Printing) :
    (raisePrinting d s).memcpy src size = (s.memcpy src size).map (raisePrinting d) := by
  unfold Printing.memcpy
  change (grwmemcpy (s.blks 0) src size s.ctx (s.memused + d)).map _ = _
  rw [grwmemcpy_raise, Option.map_map, Option.map_map]
  rfl

theorem bind_raise {α β : Type*} {f : α → Option β} {r : Option α} {lift : α → α} {down : β → β}
    (h : ∀ a, f (lift a) = (f a).map down) : (r.map lift).bind f = (r.bind f).map down := by
  cases r with
  | none => rfl
  | some a => exact h a

theorem headers_raise (headers : List (CString × CString)) (s : Printing) :
    httpSerializeHeadersList headers (raisePrinting d s) =
      (httpSerializeHeadersList headers s).map (raisePrinting d) := by
  have lines : ∀ s : Printing,
      headers.foldlM (fun (s : Printing) header => s.printf (headerLine header)) (raisePrinting d s) =
        (headers.foldlM (fun (s : Printing) header => s.printf (headerLine header)) s).map (raisePrinting d) := by
    induction headers with
    | nil => exact fun _ => rfl
    | cons header headers ih =>
      intro s
      rw [List.foldlM_cons, List.foldlM_cons, printf_raise]
      cases s.printf (headerLine header) with
      | none => rfl
      | some s => exact ih s
  unfold httpSerializeHeadersList
  rw [lines]
  exact bind_raise fun s => printf_raise d crlf s

theorem perform_raise (request : HttpRequestS) (s : Printing) :
    httpPerformResponse request (raisePrinting d s) = raise d (httpPerformResponse request s) := by
  have free : hsBufferFree request.buffer (raisePrinting d s).memused = raise d (hsBufferFree request.buffer s.memused) :=
    hsBufferFree_raise d request.buffer s.memused
  unfold httpPerformResponse
  dsimp only
  rw [free]
  rfl

end Printing

end HttpServer.SharedCounter

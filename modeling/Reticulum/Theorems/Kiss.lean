import Reticulum.Framing
import Reticulum.Kiss

/-! KISS framing over TCP passes the payloads through, however the stream is cut into reads. -/

namespace Reticulum

open Framing List

theorem fend_not_mem_kissEscape (data : Bytes) : kissFend ∉ kissEscape data :=
  flag_not_mem_escape (fun _ => rfl) (by decide) (by decide) data

theorem kissUnescape_kissEscape (data : Bytes) : kissUnescape (kissEscape data) = data := by
  rw [kissUnescape]
  induction data with
  | nil => rfl
  | cons b data ih =>
    rw [kissEscape, flatMap_cons, ← kissEscape, kissEscapeByte]
    split
    · rename_i hfesc
      rw [hfesc]
      exact congrArg (cons kissFesc) ih
    · rename_i hfesc
      split
      · rename_i hfend
        rw [hfend]
        exact congrArg (cons kissFend) ih
      · rw [singleton_append, kissUnescapeFrom, if_neg Bool.false_ne_true, if_neg hfesc, ih]

theorem kissReassembleLoop_eq {rounds : Nat} {frameBuffer : Bytes} (h : frameBuffer.length < rounds)
    (delivered : List Bytes) : kissReassembleLoop rounds frameBuffer delivered =
      (held kissFend (read kissFend none frameBuffer).1,
        delivered ++ (read kissFend none frameBuffer).2.flatMap kissDeliver) := by
  induction rounds generalizing frameBuffer delivered with
  | zero => cases h
  | succ rounds ih =>
    rw [kissReassembleLoop]
    by_cases hopen : kissFend ∈ frameBuffer
    · obtain ⟨garbage, stream, rfl, hgarbage⟩ := eq_append_cons_of_mem hopen
      rw [idxOf?_flag hgarbage, read_append, read_segment hgarbage, read_flag]
      dsimp only
      rw [drop_flag]
      by_cases hclosed : kissFend ∈ stream
      · obtain ⟨segment, rest, rfl, hsegment⟩ := eq_append_cons_of_mem hclosed
        have hlt : (kissFend :: rest).length < rounds := by
          simp only [length_append, length_cons] at h ⊢
          omega
        rw [idxOf?_flag hsegment, read_append, read_segment hsegment, read_flag]
        dsimp only
        rw [Nat.add_comm segment.length, ← drop_drop, drop_flag, take_left, drop_left, ih hlt, read_flag]
        simp
      · rw [idxOf?_eq_none_iff.mpr hclosed, read_segment hclosed, drop_left]
        simp [held]
    · rw [idxOf?_eq_none_iff.mpr hopen, read_segment hopen]
      simp [held]

theorem kissReadLoop_eq {current : Option Bytes} (h : ∀ s ∈ current, kissFend ∉ s) (chunks : List Bytes) :
    kissReadLoop (held kissFend current) chunks = (read kissFend current chunks.flatten).2.flatMap kissDeliver := by
  induction chunks generalizing current with
  | nil => rfl
  | cons chunk chunks ih =>
    rw [kissReadLoop, kissReassembleLoop_eq (Nat.lt_succ_self _), read_held h]
    dsimp only
    rw [nil_append, ih (not_mem_read h), flatten_cons, read_append, flatMap_append]

theorem kissDeliver_kissEscape {payload : Bytes} (h : payload ≠ []) :
    kissDeliver (kissCmdData :: kissEscape payload) = [payload] := by
  rw [kissDeliver, if_pos (by decide), kissUnescape_kissEscape]
  exact if_neg h

/-- The payloads of the frames are passed on, all of them and in order. -/
theorem kissReadLoop_transparent {payloads chunks : List Bytes} (hne : ∀ payload ∈ payloads, payload ≠ [])
    (hchunks : chunks.flatten = payloads.flatMap kissFrame) : kissReadLoop [] chunks = payloads := by
  have hcode : ∀ payload ∈ payloads, kissFend ∉ kissCmdData :: kissEscape payload := by
    intro payload _
    rw [List.mem_cons, not_or]
    exact ⟨by decide, fend_not_mem_kissEscape payload⟩
  have hread : (read kissFend none (payloads.flatMap kissFrame)).2.flatMap kissDeliver = payloads :=
    (read_frames rfl hcode (fun payload hpayload => kissDeliver_kissEscape (hne payload hpayload)) (.inl rfl)).2
  have hloop := @kissReadLoop_eq none nofun chunks
  rw [held] at hloop
  rw [hloop, hchunks, hread]

/-- Two payloads with marks and escapes in them, cut inside an escape sequence and between the frames. -/
theorem marks_arrive :
    kissReadLoop [] [[0xc0, 0x00, 0xdb], [0xdc, 0x01, 0xc0], [0xc0, 0x00, 0xdb, 0xdd, 0xc0]] = [[0xc0, 0x01], [0xdb]] :=
  kissReadLoop_transparent (by decide) (by decide)

end Reticulum

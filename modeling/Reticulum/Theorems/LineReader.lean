import Reticulum.Theorems.Hdlc

/-! # What a serial port or a pipe reads after noise -/

namespace Reticulum.LineReader

open List

variable {line : Line} {l : LineReader} {between : Option Bytes}

/-- The meaning of the bytes between two flags, after an escape or not. -/
def unescape (esc : Bool) : Bytes → Bytes
  | [] => []
  | b :: bs =>
    if b = hdlcEsc then unescape true bs else (if esc then b ^^^ hdlcEscMask else b) :: unescape false bs

def endsEscaped (esc : Bool) (segment : Bytes) : Bool := segment.getLast?.elim esc (· = hdlcEsc)

theorem unescape_concat (esc : Bool) (segment : Bytes) (b : UInt8) : unescape esc (segment ++ [b]) =
    unescape esc segment ++
      if b = hdlcEsc then [] else [if endsEscaped esc segment then b ^^^ hdlcEscMask else b] := by
  induction segment generalizing esc with
  | nil =>
    rw [nil_append, unescape]
    rfl
  | cons a segment ih =>
    have hlast : endsEscaped esc (a :: segment) = endsEscaped (a = hdlcEsc) segment := by
      cases segment <;> simp [endsEscaped, getLast?_cons]
    rw [cons_append, unescape, unescape, hlast]
    by_cases ha : a = hdlcEsc
    · rw [if_pos ha, if_pos ha, ih, decide_eq_true ha]
    · rw [if_neg ha, if_neg ha, ih, decide_eq_false ha, cons_append]

/-- What is left between two flags after an input: a pause ends a stretch with data in it. -/
def stretch (line : Line) (between : Option Bytes) : LineInput → Option Bytes
  | .byte b => if b = hdlcFlag then (if between.isNone then some [] else none) else between.map (· ++ [b])
  | .pause => between.filter fun segment => !(line.resets && decide (unescape false segment ≠ []))

/-- The stretches of the input from a flag that opens to a flag that closes, and the one that is open at the end. -/
def stretches (line : Line) (between : Option Bytes) : List LineInput → List Bytes × Option Bytes
  | [] => ([], between)
  | i :: inputs =>
    let rest := stretches line (stretch line between i) inputs
    (if i = .byte hdlcFlag then between.toList ++ rest.1 else rest.1, rest.2)

/-- What the reader gives for stretches: their bytes as far as they fit. -/
def delivered (line : Line) (segments : List Bytes) : List Bytes :=
  (segments.map fun segment => (unescape false segment).take line.hwMTU).filter (· ≠ [])

/-- The state of the reader between two flags, or outside. -/
def Holds (line : Line) (l : LineReader) : Option Bytes → Prop
  | none => l.inFrame = false ∧ l.dataBuffer = []
  | some segment => l.inFrame = true ∧ l.dataBuffer = (unescape false segment).take line.hwMTU ∧
    (l.dataBuffer.length < line.hwMTU → l.escape = endsEscaped false segment)

/-- A pause resets the reader just when it ends a stretch. -/
theorem Holds.pause (h : Holds line l between) :
    Holds line (l.readInput line .pause).1 (stretch line between .pause) := by
  cases between with
  | none =>
    obtain ⟨hin, hdata⟩ := h
    simpa [readInput, stretch, hdata] using ⟨hin, hdata⟩
  | some segment =>
    have hdata : l.dataBuffer = [] ↔ unescape false segment = [] := by
      rw [h.2.1, take_eq_nil_iff, or_iff_right line.pos.ne']
    rw [readInput, stretch, Option.filter_some]
    by_cases hreset : line.resets = true ∧ unescape false segment ≠ []
    · rw [if_pos ⟨hreset.1, hreset.2 ∘ hdata.mp⟩, if_neg (by simpa using hreset)]
      exact ⟨rfl, rfl⟩
    · rw [if_neg (fun hl => hreset ⟨hl.1, hl.2 ∘ hdata.mpr⟩), if_pos (by simpa [imp_iff_not_or] using hreset)]
      exact h

/-- A byte between two flags is kept as long as there is room. -/
theorem Holds.byte {b : UInt8} (h : Holds line l between) (hb : b ≠ hdlcFlag) :
    (l.readInput line (.byte b)).2 = [] ∧ Holds line (l.readInput line (.byte b)).1 (stretch line between (.byte b)) := by
  rw [readInput, readByte, stretch, if_neg (hb ·.2), if_neg hb, if_neg hb]
  cases between with
  | none =>
    rw [if_pos (.inl (by simp [h.1]))]
    exact ⟨rfl, h⟩
  | some segment =>
    obtain ⟨hin, hdata, hesc⟩ := h
    rw [Option.map_some, Holds, unescape_concat]
    by_cases hfull : line.hwMTU ≤ l.dataBuffer.length
    · rw [if_pos (.inr hfull)]
      have hlong : line.hwMTU ≤ (unescape false segment).length := by
        rw [hdata, length_take] at hfull
        exact hfull.trans (min_le_right _ _)
      refine ⟨rfl, hin, ?_, fun hroom => absurd hfull hroom.not_ge⟩
      rw [hdata, take_append_of_le_length hlong]
    · have hshort : (unescape false segment).length < line.hwMTU := by
        rw [hdata, length_take] at hfull
        omega
      have hlast : endsEscaped false (segment ++ [b]) = decide (b = hdlcEsc) := by simp [endsEscaped]
      rw [take_of_length_le hshort.le] at hdata
      rw [if_neg (by simp [hin, hfull]), hlast, ← hesc (Nat.lt_of_not_le hfull), hdata]
      by_cases hb' : b = hdlcEsc
      · rw [if_pos hb', if_pos hb', append_nil, take_of_length_le hshort.le]
        exact ⟨rfl, hin, rfl, fun _ => by simp [hb']⟩
      · rw [if_neg hb', if_neg hb', take_of_length_le (by simpa [Nat.succ_le_iff] using hshort)]
        exact ⟨rfl, hin, rfl, fun _ => by simp [hb']⟩

/-- A flag delivers what is between it and the flag before, and does not open the next stretch. -/
theorem Holds.flag (h : Holds line l between) :
    (l.readInput line (.byte hdlcFlag)).2 = delivered line between.toList ∧
      Holds line (l.readInput line (.byte hdlcFlag)).1 (stretch line between (.byte hdlcFlag)) := by
  cases between with
  | none =>
    rw [readInput, readByte, if_neg (by simp [h.1]), if_pos rfl]
    exact ⟨rfl, rfl, take_nil.symm, fun _ => rfl⟩
  | some segment =>
    rw [readInput, readByte, if_pos ⟨h.1, rfl⟩]
    refine ⟨?_, rfl, rfl⟩
    rw [close, h.2.1]
    by_cases hempty : (unescape false segment).take line.hwMTU = [] <;> simp [delivered, hempty]

theorem delivered_append (as bs : List Bytes) : delivered line (as ++ bs) = delivered line as ++ delivered line bs := by
  simp [delivered]

/-- The reader delivers the stretches, as far as they fit. -/
theorem Holds.read (h : Holds line l between) (inputs : List LineInput) :
    (l.read line inputs).2 = delivered line (stretches line between inputs).1 ∧
      Holds line (l.read line inputs).1 (stretches line between inputs).2 := by
  induction inputs generalizing l between with
  | nil => exact ⟨rfl, h⟩
  | cons i inputs ih =>
    rw [LineReader.read, stretches]
    cases i with
    | pause =>
      obtain ⟨hrest, hholds⟩ := ih h.pause
      exact ⟨hrest, hholds⟩
    | byte b =>
      by_cases hb : b = hdlcFlag
      · subst hb
        obtain ⟨hrest, hholds⟩ := ih h.flag.2
        refine ⟨?_, hholds⟩
        rw [if_pos rfl, delivered_append, ← h.flag.1, hrest]
      · obtain ⟨hrest, hholds⟩ := ih (h.byte hb).2
        refine ⟨?_, hholds⟩
        rw [if_neg (by simpa using hb), (h.byte hb).1, nil_append, hrest]

/-! ### Frames, with pauses after each -/

def frames (sent : List (Bytes × Nat)) : List LineInput :=
  sent.flatMap fun p => (hdlcFrame p.1).map .byte ++ replicate p.2 .pause

end Reticulum.LineReader

import Mathlib.Data.List.Flatten
import Mathlib.Data.List.Infix
import Reticulum.Framing
import Reticulum.Hdlc

/-! HDLC framing over TCP passes the payloads through, unless a read ends in a frame of which more than twice the
hardware MTU has come in. -/

namespace Reticulum

open Framing List Option

/-! ### Escaping -/

variable (data : Bytes)

theorem flag_not_mem_hdlcEscape : hdlcFlag ∉ hdlcEscape data :=
  flag_not_mem_escape (fun _ => rfl) (by decide) (by decide) data

theorem hdlcUnescape_cons {b : UInt8} (hb : b ≠ hdlcEsc) (data : Bytes) :
    hdlcUnescape (b :: data) = b :: hdlcUnescape data := by
  cases data with
  | nil => rfl
  | cons c data => rw [hdlcUnescape, if_neg (fun h => hb h.1), if_neg (fun h => hb h.1)]

theorem hdlcUnescape_hdlcEscape : hdlcUnescape (hdlcEscape data) = data := by
  induction data with
  | nil => rfl
  | cons b data ih =>
    rw [hdlcEscape, flatMap_cons, ← hdlcEscape, hdlcEscapeByte]
    split
    · rename_i hesc
      rw [cons_append, cons_append, nil_append, hdlcUnescape, if_pos ⟨rfl, rfl⟩, ih, hesc]
    · rename_i hesc
      split
      · rename_i hflag
        rw [cons_append, cons_append, nil_append, hdlcUnescape, if_neg (by decide), if_pos ⟨rfl, rfl⟩,
          ih, hflag]
      · rw [singleton_append, hdlcUnescape_cons hesc, ih]

section Replace

variable {first second value b : UInt8} {data : Bytes}

theorem replacePair_cons (h : ¬(b = first ∧ data.head? = some second)) :
    replacePair first second value (b :: data) = b :: replacePair first second value data := by
  cases data with
  | nil => rfl
  | cons c data => rw [replacePair, if_neg fun hpair => h ⟨hpair.1, congrArg some hpair.2⟩]

theorem replacePair_pair :
    replacePair first second value (first :: second :: data) = value :: replacePair first second value data :=
  if_pos ⟨rfl, rfl⟩

theorem head?_replacePair :
    (replacePair first second value data).head? = data.head? ∨ (replacePair first second value data).head? = some value := by
  fun_cases replacePair first second value data with
  | case1 | case2 | case4 => exact .inl rfl
  | case3 => exact .inr rfl

end Replace

/-- Neither replacement makes or breaks a sequence of the other. -/
theorem hdlcUnescape_eq_replaceUnescape : hdlcUnescape data = replaceUnescape data := by
  fun_induction hdlcUnescape data with
  | case1 | case2 => rfl
  | case3 b c data h ih =>
    obtain ⟨rfl, rfl⟩ := h
    rw [ih, replaceUnescape, replaceUnescape, replacePair_cons (by rw [head?_cons]; decide),
      replacePair_cons (b := hdlcEsc ^^^ hdlcEscMask) (fun h => absurd h.1 (by decide)), replacePair_pair]
  | case4 b c data _ h ih =>
    obtain ⟨rfl, rfl⟩ := h
    rw [ih, replaceUnescape, replaceUnescape, replacePair_pair, replacePair_cons fun h => absurd h.1 (by decide)]
  | case5 b c data hesc hflag ih =>
    have hfirst : replacePair hdlcEsc (hdlcFlag ^^^ hdlcEscMask) hdlcFlag (b :: c :: data) = b :: _ :=
      replacePair_cons fun h => hflag ⟨h.1, some.inj h.2⟩
    rw [ih, replaceUnescape, replaceUnescape, hfirst]
    refine (replacePair_cons ?_).symm
    rintro ⟨rfl, hhead⟩
    -- The byte after the escape is as it was, or a flag.
    rcases head?_replacePair.imp hhead.symm.trans hhead.symm.trans with heq | heq
    · exact hesc ⟨rfl, (some.inj heq).symm⟩
    · cases heq

/-- `HDLCUnescape` does what the two replacements of the reference do, and undoes `HDLCEscape`. -/
theorem hdlcUnescape_reference (data : Bytes) :
    hdlcUnescape data = replaceUnescape data ∧ hdlcUnescape (hdlcEscape data) = data :=
  ⟨hdlcUnescape_eq_replaceUnescape data, hdlcUnescape_hdlcEscape data⟩

/-! ### Reassembling -/

def hdlcEmit (segment : Bytes) : List Bytes := if hdlcUnescape segment = [] then [] else [hdlcUnescape segment]

def hdlcTail (hwmtu : Int) (current : Option Bytes) : Bytes :=
  if hwmtu * 2 < (held hdlcFlag current).length then [] else held hdlcFlag current

section Loop

variable {garbage segment : Bytes} (hgarbage : hdlcFlag ∉ garbage) (hsegment : hdlcFlag ∉ segment)

include hgarbage hsegment

theorem hdlcReassembleLoop_open (hwmtu : Int) (rounds : Nat) (frames : List Bytes) :
    hdlcReassembleLoop hwmtu (rounds + 1) (garbage ++ hdlcFlag :: segment) frames =
      if hwmtu * 2 < (garbage ++ hdlcFlag :: segment).length then ([], frames) else (hdlcFlag :: segment, frames) := by
  rw [hdlcReassembleLoop, idxOf?_flag hgarbage]
  dsimp only
  rw [drop_flag, idxOf?_eq_none_iff.mpr hsegment, drop_left]

theorem hdlcReassembleLoop_close (hwmtu : Int) (rounds : Nat) (rest : Bytes) (frames : List Bytes) :
    hdlcReassembleLoop hwmtu (rounds + 1) (garbage ++ hdlcFlag :: (segment ++ hdlcFlag :: rest)) frames =
      hdlcReassembleLoop hwmtu rounds (hdlcFlag :: rest) (frames ++ hdlcEmit segment) := by
  rw [hdlcReassembleLoop, idxOf?_flag hgarbage]
  dsimp only
  rw [drop_flag, idxOf?_flag hsegment]
  dsimp only
  rw [Nat.add_comm segment.length, ← drop_drop, drop_flag, take_left, drop_left, hdlcEmit]
  split
  · rw [append_nil]
  · rfl

end Loop

theorem hdlcReassembleLoop_flag {hwmtu : Int} {rounds : Nat} {stream : Bytes} (h : stream.length < rounds)
    (frames : List Bytes) : hdlcReassembleLoop hwmtu rounds (hdlcFlag :: stream) frames =
      (hdlcTail hwmtu (read hdlcFlag (some []) stream).1,
        frames ++ (read hdlcFlag (some []) stream).2.flatMap hdlcEmit) := by
  induction rounds generalizing stream frames with
  | zero => cases h
  | succ rounds ih =>
    by_cases hflag : hdlcFlag ∈ stream
    · obtain ⟨segment, rest, rfl, hsegment⟩ := eq_append_cons_of_mem hflag
      have hlt : rest.length < rounds := by
        rw [length_append, length_cons] at h
        omega
      have hround := hdlcReassembleLoop_close not_mem_nil hsegment hwmtu rounds rest frames
      rw [nil_append] at hround
      rw [hround, ih hlt, read_append, read_segment hsegment, read_flag, append_assoc]
      rfl
    · have hround := hdlcReassembleLoop_open not_mem_nil hflag hwmtu rounds frames
      rw [nil_append] at hround
      rw [hround, read_segment hflag, hdlcTail]
      split <;> simp_all [held]

theorem hdlcReassemble_flag (hwmtu : Int) (stream : Bytes) : hdlcReassemble (hdlcFlag :: stream) hwmtu =
    (hdlcTail hwmtu (read hdlcFlag (some []) stream).1,
      (read hdlcFlag (some []) stream).2.flatMap hdlcEmit) := by
  rw [hdlcReassemble, hdlcReassembleLoop_flag (by rw [length_cons]; omega), nil_append]

theorem hdlcReassemble_aligned (hwmtu : Int) {frameBuffer : Bytes} (h : ∀ b ∈ frameBuffer.head?, b = hdlcFlag) :
    (hdlcReassemble frameBuffer hwmtu).1 = hdlcTail hwmtu (read hdlcFlag none frameBuffer).1 := by
  cases frameBuffer with
  | nil => exact (ite_self []).symm
  | cons b stream =>
    obtain rfl := h b rfl
    rw [hdlcReassemble_flag, read_flag]

theorem hdlcReassemble_spec (hwmtu : Int) (frameBuffer : Bytes) :
    (hdlcReassemble frameBuffer hwmtu).2 = (read hdlcFlag none frameBuffer).2.flatMap hdlcEmit ∧
      ((hdlcReassemble frameBuffer hwmtu).1 = held hdlcFlag (read hdlcFlag none frameBuffer).1 ∨
        (hdlcReassemble frameBuffer hwmtu).1 = []) := by
  by_cases hflag : hdlcFlag ∈ frameBuffer
  · obtain ⟨garbage, stream, rfl, hgarbage⟩ := eq_append_cons_of_mem hflag
    rw [read_append, read_segment hgarbage, read_flag, hdlcReassemble]
    by_cases hclosed : hdlcFlag ∈ stream
    · obtain ⟨segment, rest, rfl, hsegment⟩ := eq_append_cons_of_mem hclosed
      have hlt : rest.length < (garbage ++ hdlcFlag :: (segment ++ hdlcFlag :: rest)).length := by
        simp only [length_append, length_cons]
        omega
      rw [hdlcReassembleLoop_close hgarbage hsegment, hdlcReassembleLoop_flag hlt, read_append, read_segment hsegment,
        read_flag]
      refine ⟨rfl, ?_⟩
      rw [hdlcTail]
      split
      · exact .inr rfl
      · exact .inl rfl
    · rw [hdlcReassembleLoop_open hgarbage hclosed, read_segment hclosed]
      split
      · exact ⟨rfl, .inr rfl⟩
      · exact ⟨rfl, .inl rfl⟩
  · rw [read_segment hflag, hdlcReassemble, hdlcReassembleLoop, idxOf?_eq_none_iff.mpr hflag]
    exact ⟨rfl, .inl rfl⟩

/-! ### The read loop -/

section ReadLoop

variable {hwmtu ifacSize : Int}

def hdlcAccept (hwmtu ifacSize : Int) (segment : Bytes) : List Bytes :=
  (hdlcEmit segment).filter fun unescaped => checkFrameLen unescaped.length hwmtu ifacSize

theorem hdlcReadLoop_cons (frameBuffer chunk : Bytes) (chunks : List Bytes) :
    hdlcReadLoop hwmtu ifacSize frameBuffer (chunk :: chunks) =
      (read hdlcFlag none (frameBuffer ++ chunk)).2.flatMap (hdlcAccept hwmtu ifacSize) ++
        hdlcReadLoop hwmtu ifacSize (hdlcReassemble (frameBuffer ++ chunk) hwmtu).1 chunks := by
  change (hdlcReassemble (frameBuffer ++ chunk) hwmtu).2.filter _ ++ _ = _
  rw [(hdlcReassemble_spec hwmtu _).1, filter_flatMap]
  rfl

theorem hdlcReadLoop_sublist {current : Option Bytes} (h : ∀ segment ∈ current, hdlcFlag ∉ segment)
    (chunks : List Bytes) : (hdlcReadLoop hwmtu ifacSize (held hdlcFlag current) chunks).Sublist
      ((read hdlcFlag current chunks.flatten).2.flatMap (hdlcAccept hwmtu ifacSize)) := by
  induction chunks generalizing current with
  | nil => exact nil_sublist _
  | cons chunk chunks ih =>
    rw [hdlcReadLoop_cons, read_held h, flatten_cons, read_append, flatMap_append]
    refine (Sublist.refl _).append ?_
    have hkept := (hdlcReassemble_spec hwmtu (held hdlcFlag current ++ chunk)).2
    rw [read_held h] at hkept
    obtain hkept | hlost := hkept
    · rw [hkept]
      exact ih (not_mem_read h)
    · rw [hlost]
      have hforgot := @ih none nofun
      exact hforgot.trans ((read_none_sublist _ _).flatMap _)

theorem hdlcReadLoop_lone {chunks : List Bytes} (h : ∀ b ∈ chunks.flatten.head?, b = hdlcFlag) :
    hdlcReadLoop hwmtu ifacSize [hdlcFlag] chunks = hdlcReadLoop hwmtu ifacSize [] chunks := by
  induction chunks with
  | nil => rfl
  | cons chunk chunks ih =>
    rw [hdlcReadLoop_cons, hdlcReadLoop_cons, singleton_append, nil_append, hdlcReassemble_flag]
    cases chunk with
    | nil =>
      have hlone : hdlcReadLoop hwmtu ifacSize (hdlcTail hwmtu (some [])) chunks =
          hdlcReadLoop hwmtu ifacSize [] chunks := by
        rw [hdlcTail]
        split
        · rfl
        · exact ih h
      exact hlone
    | cons b chunk =>
      obtain rfl := h b rfl
      rw [hdlcReassemble_flag, read_flag, read_flag, read_flag]
      rfl

end ReadLoop

/-! ### Frames on the stream -/

def hdlcPending : List Bytes → Nat → Nat
  | [], _ => 0
  | payload :: payloads, received =>
    if received < (hdlcFrame payload).length then received
    else hdlcPending payloads (received - (hdlcFrame payload).length)

def HdlcFits (hwmtu : Int) (pending : Nat) : Prop := pending = 0 ∨ (pending : Int) ≤ hwmtu * 2

instance (hwmtu : Int) (pending : Nat) : Decidable (HdlcFits hwmtu pending) := inferInstanceAs (Decidable (_ ∨ _))

theorem hdlcTail_some (hwmtu : Int) (segment : Bytes) : hdlcTail hwmtu (some segment) =
    if HdlcFits hwmtu (hdlcFlag :: segment).length then hdlcFlag :: segment else [] := by
  by_cases hlong : hwmtu * 2 < ((hdlcFlag :: segment).length : Int)
  · have hunfit : ¬ HdlcFits hwmtu (hdlcFlag :: segment).length := by
      rintro (hzero | hfits)
      · cases hzero
      · exact absurd hlong (Int.not_lt.mpr hfits)
    rw [if_neg hunfit]
    exact if_pos hlong
  · rw [if_pos (.inr (Int.not_lt.mp hlong))]
    exact if_neg hlong

def HdlcOpen (part : Bytes) (payloads : List Bytes) : Prop :=
  part = [] ∨ ∃ payload rest segment remaining, payloads = payload :: rest ∧ part = hdlcFlag :: segment ∧
    hdlcEscape payload = segment ++ remaining

theorem HdlcOpen.pending {part : Bytes} {payloads : List Bytes} (h : HdlcOpen part payloads) :
    hdlcPending payloads part.length = part.length := by
  obtain rfl | ⟨payload, rest, segment, remaining, rfl, rfl, hescape⟩ := h
  · cases payloads with
    | nil => rfl
    | cons payload payloads => rw [hdlcPending, if_pos (by simp [hdlcFrame])]
  · refine if_pos ?_
    rw [hdlcFrame, hescape]
    simp only [length_append, length_cons]
    omega

theorem hdlcPending_append (done payloads : List Bytes) (received : Nat) :
    hdlcPending (done ++ payloads) ((done.flatMap hdlcFrame).length + received) = hdlcPending payloads received := by
  induction done with
  | nil => rw [flatMap_nil, length_nil, Nat.zero_add, nil_append]
  | cons payload done ih =>
    rw [flatMap_cons, length_append, cons_append, hdlcPending, if_neg (by omega), Nat.add_assoc,
      Nat.add_sub_cancel_left, ih]

theorem exists_hdlcOpen {payloads : List Bytes} {before after : Bytes}
    (h : before ++ after = payloads.flatMap hdlcFrame) : ∃ done rest part, payloads = done ++ rest ∧
      before = done.flatMap hdlcFrame ++ part ∧ part ++ after = rest.flatMap hdlcFrame ∧ HdlcOpen part rest := by
  induction payloads generalizing before with
  | nil => exact ⟨[], [], before, rfl, rfl, h, .inl (append_eq_nil_iff.mp h).1⟩
  | cons payload payloads ih =>
    cases before with
    | nil => exact ⟨[], payload :: payloads, [], rfl, rfl, h, .inl rfl⟩
    | cons b before =>
      rw [flatMap_cons, hdlcFrame, cons_append, cons_append, cons_append, cons.injEq,
        append_assoc] at h
      obtain ⟨rfl, h⟩ := h
      -- The cut lies in the payload, right before the end flag or behind it.
      obtain ⟨remaining, hescape, hafter⟩ | ⟨more, rfl, hmore⟩ := append_eq_append_iff.mp h
      · refine ⟨[], payload :: payloads, hdlcFlag :: before, rfl, rfl, ?_,
          .inr ⟨payload, payloads, before, remaining, rfl, rfl, hescape⟩⟩
        rw [hafter, flatMap_cons, hdlcFrame, hescape]
        simp
      · cases more with
        | nil =>
          refine ⟨[], payload :: payloads, hdlcFlag :: (hdlcEscape payload ++ []), rfl, rfl, ?_,
            .inr ⟨payload, payloads, _, [], rfl, rfl, by simp⟩⟩
          rw [nil_append] at hmore
          rw [← hmore, flatMap_cons, hdlcFrame]
          simp
        | cons c more =>
          rw [singleton_append, cons_append, cons.injEq] at hmore
          obtain ⟨rfl, hmore⟩ := hmore
          obtain ⟨done, rest, part, rfl, rfl, hrest, hopen⟩ := ih hmore.symm
          refine ⟨payload :: done, rest, part, rfl, ?_, hrest, hopen⟩
          rw [flatMap_cons, hdlcFrame]
          simp

theorem head?_flatMap_hdlcFrame (payloads : List Bytes) : ∀ b ∈ (payloads.flatMap hdlcFrame).head?, b = hdlcFlag := by
  cases payloads with
  | nil => nofun
  | cons payload payloads =>
    rintro b hb
    exact (some.inj hb).symm

/-! ### Passing the payloads through -/

section Transparent

variable {hwmtu ifacSize : Int}
variable {payloads chunks : List Bytes}

theorem hdlcAccept_hdlcEscape {payload : Bytes} (h : checkFrameLen payload.length hwmtu ifacSize = true) :
    hdlcAccept hwmtu ifacSize (hdlcEscape payload) = [payload] := by
  have hne : payload ≠ [] := by
    rintro rfl
    cases h
  rw [hdlcAccept, hdlcEmit, hdlcUnescape_hdlcEscape, if_neg hne, filter_singleton, h]
  rfl

theorem read_flatMap_hdlcFrame
    (h : ∀ payload ∈ payloads, checkFrameLen payload.length hwmtu ifacSize = true) (current : Option Bytes)
    (hcurrent : current = none ∨ current = some []) : ((read hdlcFlag current (payloads.flatMap hdlcFrame)).1 = none ∨
        (read hdlcFlag current (payloads.flatMap hdlcFrame)).1 = some []) ∧
      (read hdlcFlag current (payloads.flatMap hdlcFrame)).2.flatMap (hdlcAccept hwmtu ifacSize) = payloads :=
  read_frames rfl (fun payload _ => flag_not_mem_hdlcEscape payload)
    (fun payload hpayload => hdlcAccept_hdlcEscape (h payload hpayload)) hcurrent

theorem hdlcReadLoop_ne {payload segment remaining : Bytes}
    (h : ∀ p ∈ payloads, checkFrameLen p.length hwmtu ifacSize = true)
    (hescape : hdlcEscape payload = segment ++ remaining)
    (hchunks : chunks.flatten = remaining ++ hdlcFlag :: payloads.flatMap hdlcFrame) :
    hdlcReadLoop hwmtu ifacSize [] chunks ≠ payload :: payloads := by
  intro hall
  have hremaining : hdlcFlag ∉ remaining := fun hmem =>
    flag_not_mem_hdlcEscape payload (hescape ▸ mem_append_right _ hmem)
  have hsub := @hdlcReadLoop_sublist hwmtu ifacSize none nofun chunks
  rw [hchunks, read_append, read_segment hremaining, read_flag] at hsub
  have hrest := (read_flatMap_hdlcFrame h (some []) (.inr rfl)).2
  have hlength := hsub.length_le
  simp only [map_none, toList_none, nil_append, hrest] at hlength
  rw [held, hall, length_cons] at hlength
  omega

theorem hdlcReadLoop_cut {done rest : List Bytes} {frameBuffer chunk part : Bytes}
    (h : ∀ p ∈ done, checkFrameLen p.length hwmtu ifacSize = true)
    (hbuffer : frameBuffer ++ chunk = done.flatMap hdlcFrame ++ part) (hopen : HdlcOpen part rest)
    (hrest : part ++ chunks.flatten = rest.flatMap hdlcFrame) :
    hdlcReadLoop hwmtu ifacSize frameBuffer (chunk :: chunks) = done ++
      hdlcReadLoop hwmtu ifacSize (if HdlcFits hwmtu part.length then part else []) chunks := by
  obtain ⟨hlast, hdone⟩ := read_flatMap_hdlcFrame h none (.inl rfl)
  rw [hdlcReadLoop_cons, hbuffer]
  obtain rfl | ⟨payload, rest, segment, remaining, rfl, rfl, hescape⟩ := hopen
  · rw [append_nil, hdone, ite_self]
    have hlone : hdlcReadLoop hwmtu ifacSize [hdlcFlag] chunks = hdlcReadLoop hwmtu ifacSize [] chunks := by
      refine hdlcReadLoop_lone ?_
      rw [nil_append] at hrest
      rw [hrest]
      exact head?_flatMap_hdlcFrame rest
    obtain hkept | hlost := (hdlcReassemble_spec hwmtu (done.flatMap hdlcFrame)).2
    · rw [hkept]
      obtain hnone | hflag := hlast
      · rw [hnone, held]
      · rw [hflag, held, hlone]
    · rw [hlost]
  · have hsegment : hdlcFlag ∉ segment := fun hmem =>
      flag_not_mem_hdlcEscape payload (hescape ▸ mem_append_left _ hmem)
    have haligned : ∀ b ∈ (done.flatMap hdlcFrame ++ hdlcFlag :: segment).head?, b = hdlcFlag := by
      cases done with
      | nil | cons p done => exact fun b hb => (some.inj hb).symm
    have hnothing : (read hdlcFlag none (done.flatMap hdlcFrame)).1.toList.flatMap (hdlcAccept hwmtu ifacSize) = [] := by
      obtain hnone | hflag := hlast
      · rw [hnone]
        rfl
      · rw [hflag]
        rfl
    rw [hdlcReassemble_aligned hwmtu haligned, read_append, read_flag, read_segment hsegment, append_nil,
      flatMap_append, hdone, hnothing, append_nil]
    exact congrArg (fun tail => done ++ hdlcReadLoop hwmtu ifacSize tail chunks) (hdlcTail_some hwmtu segment)

theorem hdlcReadLoop_iff {part : Bytes}
    (h : ∀ p ∈ payloads, checkFrameLen p.length hwmtu ifacSize = true) (hopen : HdlcOpen part payloads)
    (hfits : HdlcFits hwmtu part.length) (hstream : part ++ chunks.flatten = payloads.flatMap hdlcFrame) :
    hdlcReadLoop hwmtu ifacSize part chunks = payloads ↔
      ∀ received ∈ chunks.inits, HdlcFits hwmtu (hdlcPending payloads (part.length + received.flatten.length)) := by
  induction chunks generalizing part payloads with
  | nil =>
    rw [flatten_nil, append_nil] at hstream
    have hpending := hdlcPending_append payloads [] 0
    rw [← hstream, append_nil, Nat.add_zero, hopen.pending] at hpending
    obtain rfl := length_eq_zero_iff.mp hpending
    cases payloads with
    | nil => exact iff_of_true rfl fun _ _ => .inl rfl
    | cons payload payloads => cases hstream
  | cons chunk chunks ih =>
    rw [flatten_cons, ← append_assoc] at hstream
    obtain ⟨done, rest, part', rfl, hbuffer, hrest, hopen'⟩ := exists_hdlcOpen hstream
    have hreceived (received : List Bytes) :
        hdlcPending (done ++ rest) (part.length + (chunk :: received).flatten.length) =
          hdlcPending rest (part'.length + received.flatten.length) := by
      have hlength := congrArg length hbuffer
      rw [length_append, length_append] at hlength
      rw [flatten_cons, length_append, ← Nat.add_assoc, hlength, Nat.add_assoc, hdlcPending_append]
    rw [hdlcReadLoop_cut (fun p hp => h p (mem_append_left _ hp)) hbuffer hopen' hrest, append_cancel_left_eq,
      List.inits_cons, List.forall_mem_cons, List.forall_mem_map]
    simp only [hreceived]
    have hfirst : HdlcFits hwmtu (hdlcPending (done ++ rest) (part.length + ([] : List Bytes).flatten.length)) := by
      rw [flatten_nil, length_nil, Nat.add_zero, hopen.pending]
      exact hfits
    have hvalid : ∀ p ∈ rest, checkFrameLen p.length hwmtu ifacSize = true :=
      fun p hp => h p (mem_append_right _ hp)
    by_cases hfits' : HdlcFits hwmtu part'.length
    · rw [if_pos hfits', ih hvalid hopen' hfits' hrest]
      exact ⟨fun hlater => ⟨hfirst, hlater⟩, fun hall => hall.2⟩
    · rw [if_neg hfits']
      refine iff_of_false ?_ fun hall => hfits' ?_
      · obtain rfl | ⟨payload, payloads, segment, remaining, rfl, rfl, hescape⟩ := hopen'
        · exact absurd (.inl rfl) hfits'
        · refine hdlcReadLoop_ne (fun p hp => hvalid p (mem_cons_of_mem _ hp)) hescape ?_
          rw [flatMap_cons, hdlcFrame, hescape] at hrest
          simpa using hrest
      · have hnow := hall.2 [] (mem_inits _ _ |>.mpr nil_prefix)
        rwa [flatten_nil, length_nil, Nat.add_zero, hopen'.pending] at hnow

theorem checkFrameLen_iff {frameLen : Int} :
    checkFrameLen frameLen hwmtu ifacSize = true ↔ hdlcHeaderMinSize < frameLen ∧ frameLen ≤ hwmtu + ifacSize := by
  rw [checkFrameLen]
  split
  · simp_all
  · split
    · simp_all
    · simp_all

/-- The payloads arrive, in order, just if the overflow guard drops no part of a frame that has come in. -/
theorem hdlcReadLoop_transparent_iff
    (hlength : ∀ payload ∈ payloads, hdlcHeaderMinSize < payload.length ∧ (payload.length : Int) ≤ hwmtu + ifacSize)
    (hchunks : chunks.flatten = payloads.flatMap hdlcFrame) : hdlcReadLoop hwmtu ifacSize [] chunks = payloads ↔
      ∀ received ∈ chunks.inits, HdlcFits hwmtu (hdlcPending payloads received.flatten.length) := by
  have hvalid : ∀ p ∈ payloads, checkFrameLen p.length hwmtu ifacSize = true :=
    fun p hp => checkFrameLen_iff.mpr (hlength p hp)
  have hiff := hdlcReadLoop_iff hvalid (.inl rfl) (.inl rfl) hchunks
  rw [hiff]
  simp only [List.length_nil, Nat.zero_add]

def doubled : Bytes := List.replicate 500 hdlcFlag

theorem doubled_arrives :
    hdlcReadLoop 500 0 [] [hdlcFrame doubled ++ [hdlcFlag], (hdlcFrame doubled).tail] = [doubled, doubled] :=
  hdlcReadLoop_transparent_iff (by decide +kernel) (by decide +kernel) |>.mpr (by decide +kernel)

/-- Its end flag comes in a read of its own. -/
theorem doubled_lost : (hdlcHeaderMinSize < doubled.length ∧ (doubled.length : Int) ≤ 500 + 0) ∧
    [(hdlcFrame doubled).dropLast, [hdlcFlag]].flatten = [doubled].flatMap hdlcFrame ∧
      hdlcReadLoop 500 0 [] [(hdlcFrame doubled).dropLast, [hdlcFlag]] = [] := by
  decide +kernel

end Transparent

end Reticulum

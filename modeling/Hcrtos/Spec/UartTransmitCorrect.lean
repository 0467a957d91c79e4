import Hcrtos.Native.UartTransmit

/-!
# The transmitted byte sequence

Each of the three loops puts the same sequence on the wire. The loops over the FIFO keep one
equation: what the bursts hold, and what the rest of the buffer still asks for, is what the whole
buffer asks for. A CR that takes the last slot of the FIFO is remembered in `add_cr`.

## Key results

- `fillFifo_spec`, `sendBurst_spec`: one burst, and all of them
- `receive_sendByte`: the frame of a byte is received as that byte
- `transmit_expand`: the three paths
-/

namespace Hcrtos.Native.UartTransmit

open Loop

/-! ### The sequence that a write asks for -/

/-- What one byte of the buffer asks for. -/
def expandByte (fd : Int) (b : UInt8) : List UInt8 :=
  if console fd ∧ b = 10 then [13, 10] else [b]

@[simp] theorem expand_nil (fd : Int) : expand fd [] = [] := by
  simp [expand]

theorem expand_cons (fd : Int) (b : UInt8) (buf : List UInt8) :
    expand fd (b :: buf) = expandByte fd b ++ expand fd buf := by
  unfold expand expandByte
  cases hfd : console fd with
  | true => by_cases hb : b = 10 <;> simp [hb]
  | false => simp

theorem expand_drop {fd : Int} {buf : List UInt8} {i : Nat} {b : UInt8} (h : buf[i]? = some b) :
    expand fd (buf.drop i) = expandByte fd b ++ expand fd (buf.drop (i + 1)) := by
  obtain ⟨hi, hb⟩ := List.getElem?_eq_some_iff.mp h
  rw [List.drop_eq_getElem_cons hi, hb, expand_cons]

/-! ### The loops over the FIFO -/

/-- What the buffer still asks for; a CR that is not to be added again has been sent. -/
def rest (fd : Int) (buf : List UInt8) (s : Sending) : List UInt8 :=
  (expand fd (buf.drop s.sent)).drop (if s.add_cr then 0 else 1)

/-- The bursts so far. -/
structure Sends (fd : Int) (buf : List UInt8) (s : Sending) : Prop where
  sent_le : s.sent ≤ buf.length
  fifo_eq : s.fifo = s.burst.length
  stream : s.bursts.flatten ++ s.burst ++ rest fd buf s = expand fd buf
  lineFeed : s.add_cr = false → console fd = true ∧ buf[s.sent]? = some 10
  fits : ∀ b ∈ s.bursts, b.length ≤ FIFO_MAX

section

variable {fd : Int} {buf : List UInt8}

/-- What a round of the inner loop that starts in `s` leaves: it goes on only with room in the
    FIFO and bytes to send, and it stops without a byte of the buffer only when the FIFO was not
    empty. -/
structure Round (fd : Int) (buf : List UInt8) (s t : Sending) : Prop where
  sends : Sends fd buf t
  fifo_le : t.fifo ≤ FIFO_MAX
  fifo_lt : s.fifo < t.fifo
  sent_le : s.sent ≤ t.sent
  progress : s.sent < t.sent ∨ s.fifo ≠ 0

/-- `sendChar` after `cr`, which are the bytes that go before the next byte of the buffer. -/
theorem sendChar_round {s : Sending} {ch : UInt8} {cr : List UInt8} (hs : Sends fd buf s)
    (hch : buf[s.sent]? = some ch) (hroom : s.fifo + cr.length < FIFO_MAX)
    (hcr : rest fd buf s = cr ++ [ch] ++ expand fd (buf.drop (s.sent + 1))) :
    ∃ t, Round fd buf s t ∧
      (sendChar buf.length ch { s with burst := s.burst ++ cr, fifo := s.fifo + cr.length } =
          .inl (some t) ∨
        sendChar buf.length ch { s with burst := s.burst ++ cr, fifo := s.fifo + cr.length } =
          .inr t ∧ t.fifo < FIFO_MAX ∧ t.sent < buf.length) := by
  have hlt := (List.getElem?_eq_some_iff.mp hch).1
  refine ⟨{ s with
    burst := s.burst ++ cr ++ [ch]
    fifo := s.fifo + cr.length + 1
    sent := s.sent + 1
    add_cr := true }, ?_, ?_⟩
  · refine ⟨⟨hlt, ?_, ?_, (fun h => nomatch h), hs.fits⟩, hroom, ?_, Nat.le_succ _,
      .inl (Nat.lt_succ_self _)⟩
    · simp [hs.fifo_eq, Nat.add_assoc]
    · have hstream := hs.stream
      rw [hcr] at hstream
      rw [← hstream]
      simp [rest]
    · show s.fifo < s.fifo + cr.length + 1
      omega
  · unfold sendChar
    dsimp only
    split
    · rename_i hmore
      exact .inr ⟨rfl, hmore.1, Int.ofNat_lt.mp hmore.2⟩
    · exact .inl rfl

/-- A round of the inner loop. -/
theorem fillFifo_round {s : Sending} (hs : Sends fd buf s) (hlt : s.sent < buf.length)
    (hfifo : s.fifo < FIFO_MAX) :
    ∃ t, Round fd buf s t ∧
      (fillFifo fd buf buf.length s = .inl (some t) ∨
        fillFifo fd buf buf.length s = .inr t ∧ t.fifo < FIFO_MAX ∧ t.sent < buf.length) := by
  obtain ⟨ch, hch⟩ : ∃ ch, buf[s.sent]? = some ch := ⟨_, List.getElem?_eq_getElem hlt⟩
  unfold fillFifo
  rw [hch]
  dsimp only
  have hexpand := @expand_drop fd _ _ _ hch
  split
  · rename_i hcr
    obtain ⟨hfd, rfl, hadd⟩ := hcr
    have hrest : rest fd buf s = [13] ++ [10] ++ expand fd (buf.drop (s.sent + 1)) := by
      rw [rest, hadd, hexpand]
      simp [expandByte, hfd]
    split
    · -- the CR takes the last slot, the LF goes into the next burst
      rename_i hfull
      refine ⟨{ s with burst := s.burst ++ [13], fifo := s.fifo + 1, add_cr := false }, ?_,
        .inl rfl⟩
      refine ⟨⟨hs.sent_le, ?_, ?_, fun _ => ⟨hfd, hch⟩, hs.fits⟩, Nat.le_of_eq hfull,
        Nat.lt_succ_self _, Nat.le_refl _, .inr ?_⟩
      · simp [hs.fifo_eq]
      · have hstream := hs.stream
        rw [hrest] at hstream
        rw [← hstream]
        simp [rest, hexpand, expandByte, hfd]
      · intro hzero
        rw [hzero] at hfull
        exact absurd hfull (by decide)
    · rename_i hroom
      exact @sendChar_round _ _ _ _ [13] hs hch (Nat.lt_of_le_of_ne hfifo hroom) hrest
  · rename_i hno
    have hrest : rest fd buf s = [] ++ [ch] ++ expand fd (buf.drop (s.sent + 1)) := by
      rw [rest, hexpand]
      cases hadd : s.add_cr with
      | true =>
        have : ¬ (console fd = true ∧ ch = 10) := fun h => hno ⟨h.1, h.2, hadd⟩
        simp [expandByte, this]
      | false =>
        -- the CR of this LF is in the last burst
        obtain ⟨hfd, hten⟩ := hs.lineFeed hadd
        obtain rfl : ch = 10 := Option.some.inj (hch.symm.trans hten)
        simp [expandByte, hfd]
    simpa using @sendChar_round _ _ _ _ [] hs hch (by simpa using hfifo) hrest

/-- The inner loop ends with at least one byte of the buffer sent and at most 16 bytes in the
    FIFO. -/
theorem fillFifo_spec {s : Sending} (hs : Sends fd buf s) (hlt : s.sent < buf.length)
    (hfifo : s.fifo = 0) :
    ∃ t, loop (fillFifo fd buf buf.length) (FIFO_MAX + 1) s = some (some t) ∧
      Sends fd buf t ∧ t.fifo ≤ FIFO_MAX ∧ s.sent < t.sent := by
  have hstep : ∀ t, Sends fd buf t ∧ t.sent < buf.length ∧ t.fifo < FIFO_MAX ∧ s.sent ≤ t.sent ∧
      (t.fifo ≠ 0 → s.sent < t.sent) →
      ∃ u, Round fd buf t u ∧ s.sent < u.sent ∧
        (fillFifo fd buf buf.length t = .inl (some u) ∨
          fillFifo fd buf buf.length t = .inr u ∧ u.fifo < FIFO_MAX ∧ u.sent < buf.length) := by
    rintro t ⟨ht, htlt, htfifo, hle, hprogress⟩
    obtain ⟨u, hround, hu⟩ := fillFifo_round ht htlt htfifo
    refine ⟨u, hround, ?_, hu⟩
    rcases hround.progress with h | h
    · exact Nat.lt_of_le_of_lt hle h
    · exact Nat.lt_of_lt_of_le (hprogress h) hround.sent_le
  have hspec : ∃ r, loop (fillFifo fd buf buf.length) (FIFO_MAX + 1) s = some r ∧
      ∃ t, r = some t ∧ Sends fd buf t ∧ t.fifo ≤ FIFO_MAX ∧ s.sent < t.sent := by
    apply loop_spec (fun t => FIFO_MAX - t.fifo) ?_ ?_ (I := fun t => Sends fd buf t ∧
      t.sent < buf.length ∧ t.fifo < FIFO_MAX ∧ s.sent ≤ t.sent ∧ (t.fifo ≠ 0 → s.sent < t.sent))
    · exact ⟨hs, hlt, by rw [hfifo]; decide, Nat.le_refl _, fun h => absurd hfifo h⟩
    · exact Nat.lt_succ_of_le (Nat.sub_le _ _)
    · intro t b hI hbody
      obtain ⟨u, hround, hsent, hu | ⟨hu, -⟩⟩ := hstep t hI
      · rw [hu] at hbody
        cases hbody
        exact ⟨u, rfl, hround.sends, hround.fifo_le, hsent⟩
      · rw [hu] at hbody
        cases hbody
    · intro t t' hI hbody
      obtain ⟨u, hround, hsent, hu | ⟨hu, hroom, hmore⟩⟩ := hstep t hI
      · rw [hu] at hbody
        cases hbody
      · rw [hu] at hbody
        cases hbody
        have hlt := hround.fifo_lt
        refine ⟨⟨hround.sends, hmore, hroom, Nat.le_of_lt hsent, fun _ => hsent⟩, ?_⟩
        show FIFO_MAX - t'.fifo < FIFO_MAX - t.fifo
        omega
  obtain ⟨r, hr, t, rfl, hQ⟩ := hspec
  exact ⟨t, hr, hQ⟩

/-- What holds between two bursts. -/
structure Between (fd : Int) (buf : List UInt8) (s : Sending) : Prop where
  stream : s.bursts.flatten ++ rest fd buf s = expand fd buf
  lineFeed : s.add_cr = false → console fd = true ∧ buf[s.sent]? = some 10
  fits : ∀ b ∈ s.bursts, b.length ≤ FIFO_MAX

/-- The outer loop sends what the buffer asks for, in bursts that fit into the FIFO. -/
theorem sendBurst_spec {fuel : Nat} {s : Sending} (hs : Between fd buf s)
    (hlt : s.sent < buf.length) (hfuel : buf.length - s.sent < fuel) :
    ∃ bursts, (loop (sendBurst fd buf buf.length) fuel s).join = some bursts ∧
      bursts.flatten = expand fd buf ∧ ∀ b ∈ bursts, b.length ≤ FIFO_MAX := by
  have hstep : ∀ t, Between fd buf t ∧ t.sent < buf.length →
      ∃ u, Between fd buf u ∧ t.sent < u.sent ∧ u.sent ≤ buf.length ∧
        sendBurst fd buf buf.length t =
          if (u.sent : Int) < buf.length then .inr u else .inl (some u.bursts) := by
    rintro t ⟨ht, htlt⟩
    obtain ⟨u, hu, hsends, hfifo, hsent⟩ := @fillFifo_spec fd buf
      { t with fifo := 0, burst := [] }
      ⟨Nat.le_of_lt htlt, rfl, by simpa [rest] using ht.stream, ht.lineFeed, ht.fits⟩ htlt rfl
    refine ⟨{ u with bursts := u.bursts ++ [u.burst] }, ⟨?_, hsends.lineFeed, ?_⟩, hsent,
      hsends.sent_le, ?_⟩
    · simpa [rest] using hsends.stream
    · intro b hb
      rcases List.mem_append.mp hb with hb | hb
      · exact hsends.fits b hb
      · rw [List.mem_singleton.mp hb, ← hsends.fifo_eq]
        exact hfifo
    · rw [sendBurst, hu]
      rfl
  have hspec : ∃ r, loop (sendBurst fd buf buf.length) fuel s = some r ∧
      ∃ bursts, r = some bursts ∧ bursts.flatten = expand fd buf ∧
        ∀ b ∈ bursts, b.length ≤ FIFO_MAX := by
    apply loop_spec (fun t => buf.length - t.sent) ?_ ?_
      (I := fun t => Between fd buf t ∧ t.sent < buf.length)
    · exact ⟨hs, hlt⟩
    · exact hfuel
    · intro t b hI hbody
      obtain ⟨u, hu, hsent, hle, heq⟩ := hstep t hI
      rw [heq] at hbody
      split at hbody
      · cases hbody
      · rename_i hend
        cases hbody
        refine ⟨_, rfl, ?_, hu.fits⟩
        -- nothing of the buffer is left, so no CR was sent ahead
        have hend : u.sent = buf.length := by omega
        have hadd : u.add_cr = true := by
          by_contra hadd
          obtain ⟨-, hten⟩ := hu.lineFeed (by simpa using hadd)
          rw [hend] at hten
          simp at hten
        have hstream := hu.stream
        rw [rest, hend, hadd, List.drop_length, expand_nil] at hstream
        simpa using hstream
    · intro t t' hI hbody
      obtain ⟨u, hu, hsent, hle, heq⟩ := hstep t hI
      rw [heq] at hbody
      split at hbody
      · rename_i hmore
        cases hbody
        have hmore : t'.sent < buf.length := by omega
        refine ⟨⟨hu, hmore⟩, ?_⟩
        show buf.length - t'.sent < buf.length - t.sent
        omega
      · cases hbody
  obtain ⟨r, hr, bursts, rfl, hQ⟩ := hspec
  exact ⟨bursts, by rw [hr]; rfl, hQ⟩

end

/-- A start of the outer loop with the empty bursts `bursts`. -/
theorem write_spec {fuel : Nat} (fd : Int) (buf : List UInt8) {bursts : List (List UInt8)}
    (hempty : ∀ b ∈ bursts, b = []) (hfuel : buf.length < fuel) :
    ∃ sent, (if (buf.length : Int) = 0 then some []
        else (loop (sendBurst fd buf buf.length) fuel ⟨0, true, 0, [], bursts⟩).join) = some sent ∧
      sent.flatten = expand fd buf ∧ ∀ b ∈ sent, b.length ≤ FIFO_MAX := by
  split
  · rename_i hzero
    have hnil : buf = [] := List.length_eq_zero_iff.mp (by omega)
    exact ⟨[], rfl, by simp [hnil], by simp⟩
  · rename_i hpos
    refine sendBurst_spec ⟨?_, (fun h => nomatch h), ?_⟩ (Nat.pos_of_ne_zero (by omega))
      (Nat.lt_of_le_of_lt (Nat.sub_le _ _) hfuel)
    · simpa [rest] using hempty
    · intro b hb
      rw [hempty b hb]
      exact Nat.zero_le _

/-! ### The bit-banged path -/

theorem byteOf_dataBits (val : UInt8) : byteOf (dataBits 8 val) = val := by
  have hall : ∀ n : Fin 256, byteOf (dataBits 8 (UInt8.ofNat n)) = UInt8.ofNat n := by
    decide +kernel
  have := hall ⟨val.toNat, val.toNat_lt⟩
  simpa using this

/-- The frame of a byte is received as that byte. -/
theorem receive_sendByte (val : UInt8) (levels : List Bool) :
    receive (sci_16550uart_gpio_tx_send_byte val ++ levels) =
      (receive levels).map (val :: ·) := by
  have hbyte := byteOf_dataBits val
  simp only [dataBits] at hbyte
  simp only [sci_16550uart_gpio_tx_send_byte, dataBits, List.cons_append, List.nil_append, receive,
    hbyte]

/-- The levels of the frames of `bytes`, one after the other. -/
def frames (bytes : List UInt8) : List Bool := bytes.flatMap sci_16550uart_gpio_tx_send_byte

theorem receive_frames (bytes : List UInt8) : receive (frames bytes) = some bytes := by
  induction bytes with
  | nil => rfl
  | cons b bytes ih =>
    show receive (sci_16550uart_gpio_tx_send_byte b ++ frames bytes) = _
    rw [receive_sendByte, ih]
    rfl

/-- A round of the loop sends the frames of what one byte asks for. -/
theorem gpioSend_cons (fd : Int) (bytes : Int) (ch : UInt8) (buf : List UInt8) (cnt : Nat)
    (levels : List Bool) :
    gpioSend fd bytes (ch :: buf, cnt, levels) =
      if ((cnt + 1 : Nat) : Int) < bytes then
        .inr (buf, cnt + 1, levels ++ frames (expandByte fd ch))
      else .inl (some (levels ++ frames (expandByte fd ch))) := by
  unfold gpioSend expandByte
  by_cases hcr : console fd = true ∧ ch = 10
  · simp [hcr, frames]
  · simp [hcr, frames]

theorem gpio_spec {fuel : Nat} (fd : Int) (buf : List UInt8) (hfuel : buf.length < fuel) :
    sci_16550uart_gpio_tx_write_bytes fuel fd buf buf.length = some (frames (expand fd buf)) := by
  unfold sci_16550uart_gpio_tx_write_bytes
  split
  · rename_i hzero
    have hnil : buf = [] := List.length_eq_zero_iff.mp (by omega)
    simp [hnil, frames]
  · rename_i hpos
    have hspec : ∃ r, loop (gpioSend fd buf.length) fuel (buf, 0, []) = some r ∧
        r = some (frames (expand fd buf)) := by
      -- the levels so far and the frames of the rest are the frames of the whole buffer
      apply loop_spec (fun t => t.1.length) ?_ ?_ (I := fun t => t.1 ≠ [] ∧
        t.2.1 + t.1.length = buf.length ∧ t.2.2 ++ frames (expand fd t.1) = frames (expand fd buf))
      · refine ⟨?_, by simp, by simp⟩
        rintro rfl
        exact hpos rfl
      · exact hfuel
      · rintro ⟨l, cnt, levels⟩ r ⟨hne, hcnt, hlevels⟩ hbody
        obtain ⟨ch, l, rfl⟩ := List.exists_cons_of_ne_nil hne
        dsimp only at hcnt hlevels
        rw [expand_cons, frames, List.flatMap_append, ← frames, ← frames] at hlevels
        rw [gpioSend_cons] at hbody
        split at hbody
        · cases hbody
        · rename_i hend
          cases hbody
          simp only [List.length_cons] at hcnt
          have hnil : l = [] := List.length_eq_zero_iff.mp (by omega)
          rw [← hlevels, hnil]
          simp [frames]
      · rintro ⟨l, cnt, levels⟩ t ⟨hne, hcnt, hlevels⟩ hbody
        obtain ⟨ch, l, rfl⟩ := List.exists_cons_of_ne_nil hne
        dsimp only at hcnt hlevels
        rw [expand_cons, frames, List.flatMap_append, ← frames, ← frames] at hlevels
        rw [gpioSend_cons] at hbody
        split at hbody
        · rename_i hmore
          cases hbody
          simp only [List.length_cons] at hcnt
          refine ⟨⟨?_, ?_, ?_⟩, Nat.lt_succ_self _⟩
          · rintro rfl
            simp only [List.length_nil] at hcnt
            omega
          · show cnt + 1 + l.length = buf.length
            omega
          · rw [← hlevels, List.append_assoc]
        · cases hbody
    obtain ⟨r, hr, rfl⟩ := hspec
    rw [hr]
    rfl

/-- All three loops end, the bursts fit into the FIFO, and what is sent is the buffer with a CR
    before each LF on a console and the buffer itself otherwise. -/
theorem transmit_expand (fd : Int) (buf : List UInt8) :
    ∃ fuel,
      (∃ bursts, sci_16550uart_write_bytes fuel fd buf buf.length = some bursts ∧
        bursts.flatten = expand fd buf ∧ ∀ b ∈ bursts, b.length ≤ 16) ∧
      (∃ bursts, sci_16550uart_write_bytes_from_isr fuel fd buf buf.length = some bursts ∧
        bursts.flatten = expand fd buf ∧ ∀ b ∈ bursts, b.length ≤ 16) ∧
      ∃ levels, sci_16550uart_gpio_tx_write_bytes fuel fd buf buf.length = some levels ∧
        receive levels = some (expand fd buf) := by
  refine ⟨buf.length + 1, ?_, ?_, ?_⟩
  · exact @write_spec _ fd buf [] (by simp) (Nat.lt_succ_self _)
  · exact @write_spec _ fd buf [[]] (by simp) (Nat.lt_succ_self _)
  · exact ⟨_, gpio_spec fd buf (Nat.lt_succ_self _), receive_frames _⟩

/-- A line feed behind fifteen characters: its CR takes the last slot of the FIFO. -/
example : sci_16550uart_write_bytes 20 STDOUT_FILENO (List.replicate 15 65 ++ [10, 66]) 17 =
    some [List.replicate 15 65 ++ [13], [10, 66]] := by decide

end Hcrtos.Native.UartTransmit

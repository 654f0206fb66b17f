/-
# Reassembly of a stream

A decoder takes messages off the front of a buffer and hands them to a process, until it has to
wait for more data, or something fails.  A stream reaches it in chunks.

* `Reads`: the messages that are read without a failure, and what is left after them.
* `decode_cases`: how decoding a buffer ends.
* `feed_eq_decode`: the cuts between the chunks do not matter as long as no beginning of the
  data fails where the data themselves do not (`Steady`).
* `feed_eq_iff_steady`: and only then.
-/
import Mathlib.Data.List.Basic

namespace Reassembly

variable {α β ε σ τ : Type*}

/-- What is at the front of the buffer: nothing to be read yet, an error, or a message and what
comes after it. -/
structure Decoder (α β ε : Type*) where
  next : List α → Option (Except ε (β × List α))
  /-- A message is a nonempty beginning of the buffer, whatever comes after it. -/
  exists_eq_append : ∀ {b m rest}, next b = some (.ok (m, rest)) →
    ∃ c, c ≠ [] ∧ b = c ++ rest ∧ ∀ d, next (c ++ d) = some (.ok (m, d))
  /-- After an error the decoder does not wait again. -/
  next_append_ne_none : ∀ {b err} d, next b = some (.error err) → next (b ++ d) ≠ none

theorem Decoder.length_lt (D : Decoder α β ε) {b : List α} {m : β} {rest : List α}
    (h : D.next b = some (.ok (m, rest))) : rest.length < b.length := by
  obtain ⟨c, hc, rfl, -⟩ := D.exists_eq_append h
  have hpos : 0 < c.length := List.length_pos_iff.mpr hc
  rw [List.length_append]
  omega

theorem Decoder.next_append (D : Decoder α β ε) {b : List α} {m : β} {rest : List α}
    (h : D.next b = some (.ok (m, rest))) (d : List α) :
    D.next (b ++ d) = some (.ok (m, rest ++ d)) := by
  obtain ⟨c, -, rfl, hnext⟩ := D.exists_eq_append h
  rw [List.append_assoc, hnext]

/-- An outcome after some more messages. -/
def prepend (ms : List β) (o : List β × τ) : List β × τ := (ms ++ o.1, o.2)

theorem prepend_prepend (ms ms' : List β) (o : List β × τ) :
    prepend ms (prepend ms' o) = prepend (ms ++ ms') o := by
  simp [prepend]

variable (D : Decoder α β ε) (process : β → σ → Except ε σ)

/-- Read as much of the buffer as can be read: the messages, and the error or what is left. -/
def decode (b : List α) (s : σ) : List β × Except ε (List α × σ) :=
  match _h : D.next b with
  | none => ([], .ok (b, s))
  | some (.error err) => ([], .error err)
  | some (.ok (m, rest)) =>
    match process m s with
    | .error err => ([m], .error err)
    | .ok s' => prepend [m] (decode rest s')
termination_by b.length
decreasing_by exact D.length_lt _h

/-- The chunks are put into the buffer one after the other, up to an error. -/
def feed : List (List α) → List α → σ → List β × Except ε (List α × σ)
  | [], b, s => ([], .ok (b, s))
  | chunk :: chunks, b, s =>
    match decode D process (b ++ chunk) s with
    | (ms, .error err) => (ms, .error err)
    | (ms, .ok (b', s')) => prepend ms (feed chunks b' s')

/-- The messages at the front of a buffer are read and processed without an error. -/
inductive Reads : List α → σ → List β → List α → σ → Prop
  | nil (b : List α) (s : σ) : Reads b s [] b s
  | cons {b b' rest : List α} {m : β} {ms : List β} {s s' t : σ}
      (hnext : D.next b = some (.ok (m, b'))) (hprocess : process m s = .ok s')
      (hrest : Reads b' s' ms rest t) : Reads b s (m :: ms) rest t

/-- Where reading arrives, no beginning of the rest fails unless the rest fails likewise. -/
def Steady (b : List α) (s : σ) : Prop :=
  ∀ ms rest t, Reads D process b s ms rest t →
    ∀ p err, p <+: rest → D.next p = some (.error err) → D.next rest = some (.error err)

variable {D process} {b rest : List α} {s t : σ} {m : β} {ms : List β} {err : ε}

/-! ## Reading -/

theorem decode_of_wait (h : D.next b = none) : decode D process b s = ([], .ok (b, s)) := by
  rw [decode]
  split
  · rfl
  · rename_i h'
    rw [h] at h'
    cases h'
  · rename_i h'
    rw [h] at h'
    cases h'

theorem decode_of_error (h : D.next b = some (.error err)) :
    decode D process b s = ([], .error err) := by
  rw [decode]
  split
  · rename_i h'
    rw [h] at h'
    cases h'
  · rename_i h'
    rw [h] at h'
    cases h'
    rfl
  · rename_i h'
    rw [h] at h'
    cases h'

theorem decode_of_message (h : D.next b = some (.ok (m, rest))) :
    decode D process b s = match process m s with
      | .error err => ([m], .error err)
      | .ok s' => prepend [m] (decode D process rest s') := by
  rw [decode]
  split
  · rename_i h'
    rw [h] at h'
    cases h'
  · rename_i h'
    rw [h] at h'
    cases h'
  · rename_i h'
    rw [h] at h'
    cases h'
    rfl

theorem Reads.trans {b' : List α} {s' : σ} {ms' : List β} (h : Reads D process b s ms b' s')
    (h' : Reads D process b' s' ms' rest t) : Reads D process b s (ms ++ ms') rest t := by
  induction h with
  | nil => exact h'
  | cons hnext hprocess _ ih => exact .cons hnext hprocess (ih h')

/-- What has been read is a beginning of the buffer, and is read in the same way whatever comes
after it. -/
theorem Reads.exists_eq_append (h : Reads D process b s ms rest t) :
    ∃ c, b = c ++ rest ∧ ∀ d, Reads D process (c ++ d) s ms d t := by
  induction h with
  | nil b s => exact ⟨[], rfl, fun d => .nil d s⟩
  | cons hnext hprocess _ ih =>
      obtain ⟨c, -, rfl, hstable⟩ := D.exists_eq_append hnext
      obtain ⟨c', rfl, hreads⟩ := ih
      refine ⟨c ++ c', by rw [List.append_assoc], fun d => ?_⟩
      rw [List.append_assoc]
      exact .cons (hstable (c' ++ d)) hprocess (hreads d)

theorem Reads.append (h : Reads D process b s ms rest t) (d : List α) :
    Reads D process (b ++ d) s ms (rest ++ d) t := by
  obtain ⟨c, rfl, hreads⟩ := h.exists_eq_append
  rw [List.append_assoc]
  exact hreads (rest ++ d)

/-- Nothing is read where the decoder waits. -/
theorem Reads.eq_of_wait (h : Reads D process b s ms rest t) (hwait : D.next b = none) :
    rest = b := by
  cases h with
  | nil => rfl
  | cons hnext _ _ =>
      rw [hwait] at hnext
      cases hnext

/-- Decoding reads on from where reading has arrived. -/
theorem Reads.decode_eq (h : Reads D process b s ms rest t) :
    decode D process b s = prepend ms (decode D process rest t) := by
  induction h with
  | nil => rfl
  | cons hnext hprocess _ ih =>
      rw [decode_of_message hnext, hprocess]
      simp only [ih, prepend_prepend]
      rfl

variable (D process) in
/-- **How decoding ends**: it waits, it finds an error, or a message is not processed. -/
theorem decode_cases (b : List α) (s : σ) :
    ∃ ms rest t, Reads D process b s ms rest t ∧
      ((D.next rest = none ∧ decode D process b s = (ms, .ok (rest, t))) ∨
        (∃ err, D.next rest = some (.error err) ∧ decode D process b s = (ms, .error err)) ∨
        ∃ m rest' err, D.next rest = some (.ok (m, rest')) ∧ process m t = .error err ∧
          decode D process b s = (ms ++ [m], .error err)) := by
  induction hn : b.length using Nat.strongRecOn generalizing b s with
  | ind n ih =>
    cases hnext : D.next b with
    | none => exact ⟨[], b, s, .nil b s, .inl ⟨hnext, decode_of_wait hnext⟩⟩
    | some r =>
      cases r with
      | error err =>
          exact ⟨[], b, s, .nil b s, .inr (.inl ⟨err, hnext, decode_of_error hnext⟩)⟩
      | ok r =>
        obtain ⟨m, rest⟩ := r
        cases hprocess : process m s with
        | error err =>
            refine ⟨[], b, s, .nil b s, .inr (.inr ⟨m, rest, err, hnext, hprocess, ?_⟩)⟩
            rw [decode_of_message hnext, hprocess]
            rfl
        | ok s' =>
            -- the rest is shorter, and is decoded after the message
            have hlt : rest.length < n := hn ▸ D.length_lt hnext
            obtain ⟨ms, rest', t, hreads, hend⟩ := ih _ hlt rest s' rfl
            have hcons : Reads D process b s (m :: ms) rest' t := .cons hnext hprocess hreads
            have hdecode : decode D process b s = prepend [m] (decode D process rest s') := by
              rw [decode_of_message hnext, hprocess]
            refine ⟨m :: ms, rest', t, hcons, ?_⟩
            rcases hend with ⟨hwait, heq⟩ | ⟨err, herr, heq⟩ | ⟨m', rest'', err, hm, hp, heq⟩
            · exact .inl ⟨hwait, by rw [hdecode, heq]; rfl⟩
            · exact .inr (.inl ⟨err, herr, by rw [hdecode, heq]; rfl⟩)
            · exact .inr (.inr ⟨m', rest'', err, hm, hp, by rw [hdecode, heq]; rfl⟩)

/-! ## More data -/

/-- After an end without an error the decoder waits. -/
theorem next_of_decode_ok (h : decode D process b s = (ms, .ok (rest, t))) :
    Reads D process b s ms rest t ∧ D.next rest = none := by
  obtain ⟨ms', rest', t', hreads, ⟨hwait, heq⟩ | ⟨err, -, heq⟩ | ⟨m, rest'', err, -, -, heq⟩⟩ :=
    decode_cases D process b s
  · rw [h] at heq
    cases heq
    exact ⟨hreads, hwait⟩
  · rw [h] at heq
    cases heq
  · rw [h] at heq
    cases heq

/-- More data are decoded after what was left. -/
theorem decode_append_of_ok (h : decode D process b s = (ms, .ok (rest, t))) (d : List α) :
    decode D process (b ++ d) s = prepend ms (decode D process (rest ++ d) t) :=
  ((next_of_decode_ok h).1.append d).decode_eq

/-- After an error more data change nothing, where the decoder is steady. -/
theorem decode_append_of_error {d : List α} (h : decode D process b s = (ms, .error err))
    (hsteady : Steady D process (b ++ d) s) :
    decode D process (b ++ d) s = (ms, .error err) := by
  obtain ⟨ms', rest, t, hreads, ⟨-, heq⟩ | ⟨err', herr, heq⟩ | ⟨m, rest', err', hm, hp, heq⟩⟩ :=
    decode_cases D process b s
  · rw [h] at heq
    cases heq
  · rw [h] at heq
    cases heq
    have hlater := hsteady _ _ _ (hreads.append d) rest _ (List.prefix_append _ _) herr
    rw [(hreads.append d).decode_eq, decode_of_error hlater, prepend, List.append_nil]
  · rw [h] at heq
    cases heq
    rw [(hreads.append d).decode_eq, decode_of_message (D.next_append hm d), hp]
    rfl

/-- The messages and what is left do not depend on a process that raises no error. -/
theorem Reads.of_total {υ : Type*} (h : Reads D process b s ms rest t) (u : υ) :
    Reads D (fun _ u => .ok u) b u ms rest u := by
  induction h with
  | nil b s => exact .nil b u
  | cons hnext _ _ ih => exact .cons hnext rfl ih

theorem decode_total_of_ok {υ : Type*} (h : decode D process b s = (ms, .ok (rest, t))) (u : υ) :
    decode D (fun _ u => .ok u) b u = (ms, .ok (rest, u)) := by
  obtain ⟨hreads, hwait⟩ := next_of_decode_ok h
  rw [(hreads.of_total u).decode_eq, decode_of_wait hwait, prepend, List.append_nil]

theorem Steady.of_reads (hsteady : Steady D process b s) (h : Reads D process b s ms rest t) :
    Steady D process rest t :=
  fun ms' rest' t' h' => hsteady (ms ++ ms') rest' t' (h.trans h')

/-! ## Chunks -/

theorem feed_singleton (chunk : List α) :
    feed D process [chunk] b s = decode D process (b ++ chunk) s := by
  rw [feed]
  cases decode D process (b ++ chunk) s with
  | mk ms r =>
    cases r with
    | error err => rfl
    | ok r => simp [feed, prepend]

/-- One more chunk. -/
theorem feed_concat_of_ok {chunks : List (List α)}
    (h : feed D process chunks b s = (ms, .ok (rest, t))) (chunk : List α) :
    feed D process (chunks ++ [chunk]) b s = prepend ms (decode D process (rest ++ chunk) t) := by
  induction chunks generalizing b s ms with
  | nil =>
      rw [feed] at h
      cases h
      exact feed_singleton chunk
  | cons first chunks ih =>
      rw [List.cons_append, feed]
      rw [feed] at h
      cases hfirst : decode D process (b ++ first) s with
      | mk ms' r =>
        rw [hfirst] at h
        cases r with
        | error err => cases h
        | ok r =>
            obtain ⟨b', s'⟩ := r
            cases hrest : feed D process chunks b' s' with
            | mk ms'' r'' =>
              simp only [hrest, prepend, Prod.mk.injEq] at h
              obtain ⟨rfl, rfl⟩ := h
              simp only [ih hrest, prepend_prepend]

/-- **Chunks are decoded like the whole stream**, where the decoder is steady. -/
theorem feed_eq_decode {chunks : List (List α)} (hwait : D.next b = none)
    (hsteady : Steady D process (b ++ chunks.flatten) s) :
    feed D process chunks b s = decode D process (b ++ chunks.flatten) s := by
  induction chunks generalizing b s with
  | nil =>
      rw [List.flatten_nil, List.append_nil, decode_of_wait hwait]
      rfl
  | cons chunk chunks ih =>
      rw [List.flatten_cons, ← List.append_assoc] at hsteady ⊢
      rw [feed]
      cases hfirst : decode D process (b ++ chunk) s with
      | mk ms r =>
        cases r with
        | error err => exact (decode_append_of_error hfirst hsteady).symm
        | ok r =>
            obtain ⟨rest, t⟩ := r
            obtain ⟨hreads, hrest⟩ := next_of_decode_ok hfirst
            rw [decode_append_of_ok hfirst]
            simp only
            rw [ih hrest (hsteady.of_reads (hreads.append _))]

/-- A stream that is decoded alike however it is cut is steady: the cut after a beginning that
fails shows whether the rest fails. -/
theorem steady_of_feed_eq {stream : List α} (hwait : D.next b = none)
    (hcuts : ∀ chunks chunks' : List (List α), chunks.flatten = stream →
      chunks'.flatten = stream → feed D process chunks b s = feed D process chunks' b s) :
    Steady D process (b ++ stream) s := by
  rintro ms rest t hreads p err ⟨q, rfl⟩ herr
  obtain ⟨c, hsplit, hstable⟩ := hreads.exists_eq_append
  rw [← List.append_assoc] at hsplit
  rcases List.append_eq_append_iff.mp hsplit with ⟨d, hcut, rfl⟩ | ⟨x, rfl, -⟩
  · -- the beginning ends inside the stream, and the stream can be cut there
    have hfails : decode D process (b ++ d) s = (ms, .error err) := by
      rw [← hcut, (hstable p).decode_eq, decode_of_error herr, prepend, List.append_nil]
    have hcut₁ : feed D process [d, q] b s = (ms, .error err) := by
      rw [feed, hfails]
    have hcut₂ : feed D process [d ++ q] b s = prepend ms (decode D process (p ++ q) t) := by
      rw [feed_singleton, ← List.append_assoc, ← hcut, List.append_assoc,
        (hstable (p ++ q)).decode_eq]
    have hsame := hcuts [d, q] [d ++ q] (by simp) (by simp)
    rw [hcut₁, hcut₂, prepend, Prod.mk.injEq, List.self_eq_append_right] at hsame
    obtain ⟨hnone, hend⟩ := hsame
    cases hnext : D.next (p ++ q) with
    | none =>
        rw [decode_of_wait hnext] at hend
        cases hend
    | some r =>
      cases r with
      | error err' =>
          rw [decode_of_error hnext] at hend
          cases hend
          rfl
      | ok r =>
          rw [decode_of_message hnext] at hnone
          cases hprocess : process r.1 t with
          | error err' =>
              rw [hprocess] at hnone
              cases hnone
          | ok s' =>
              rw [hprocess] at hnone
              cases hnone
  · -- it cannot end before, where the decoder waits
    have hreads' := hstable (p ++ x)
    rw [← List.append_assoc] at hreads'
    have hpx := hreads'.eq_of_wait hwait
    rw [← hpx] at hwait
    exact absurd hwait (D.next_append_ne_none x herr)

/-- **When the cuts do not matter.** -/
theorem feed_eq_iff_steady {stream : List α} (hwait : D.next b = none) :
    (∀ chunks chunks' : List (List α), chunks.flatten = stream → chunks'.flatten = stream →
      feed D process chunks b s = feed D process chunks' b s) ↔
      Steady D process (b ++ stream) s := by
  refine ⟨steady_of_feed_eq hwait, fun hsteady chunks chunks' hchunks hchunks' => ?_⟩
  subst hchunks
  rw [feed_eq_decode hwait hsteady, feed_eq_decode hwait (hchunks' ▸ hsteady), hchunks']

end Reassembly

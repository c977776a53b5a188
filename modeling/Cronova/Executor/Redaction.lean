import Cronova.Text.Masking
import Mathlib.Data.List.Sort
import Mathlib.Algebra.Group.Nat.Defs

/-! The log of a task, with its secrets masked: `redactWriter` of `internal/executor/runner.go`.

Lines are masked as they are completed. A line that outgrows the buffer is masked as far as it has
come, and all but the end of it passed on. What is passed on never has a secret in it; it is what the whole
line would give, unless the buffer ends inside a secret that has begun with another.
-/

set_option autoImplicit false

namespace Cronova.Executor

open Text

/-! ### The writer -/

abbrev Bytes := List UInt8

def newline : UInt8 := 10

def asterisk : UInt8 := 42

/-- `redactMask`. -/
def redactMask : Bytes := List.replicate 4 asterisk

def redactBufCap : Nat := 2 ^ 20

/-- `redactBytes`, which leaves a text without secrets alone. -/
def redactBytes (b : Bytes) (secrets : List Bytes) : Bytes :=
  if secrets.any fun s => s ≠ [] ∧ s <:+: b then masked secrets redactMask b else b

/-- `redactWriter`, with what it has passed to its sink. -/
structure RedactWriter where
  secrets : List Bytes
  maxLen : Nat
  passed : Bytes := []
  buf : Bytes := []

/-- The loop over the newlines of the buffer: what it passes on, and the buffer it leaves. -/
def passLines (secrets : List Bytes) : Bytes → Bytes → Bytes × Bytes
  | line, [] => ([], line)
  | line, c :: cs =>
    if c = newline then
      let (out, left) := passLines secrets [] cs
      (redactBytes (line ++ [c]) secrets ++ out, left)
    else passLines secrets (line ++ [c]) cs

/-- The flush of a buffer over the cap keeps one byte less than the longest secret has. -/
def RedactWriter.flush (rw : RedactWriter) : RedactWriter :=
  if redactBufCap < rw.buf.length then
    let red := redactBytes rw.buf rw.secrets
    let keep := min (rw.maxLen - 1) red.length
    { rw with passed := rw.passed ++ red.take (red.length - keep), buf := red.drop (red.length - keep) }
  else rw

/-- The lines that a write completes. -/
def RedactWriter.lines (rw : RedactWriter) (p : Bytes) : RedactWriter :=
  { rw with
    passed := rw.passed ++ (passLines rw.secrets [] (rw.buf ++ p)).1
    buf := (passLines rw.secrets [] (rw.buf ++ p)).2 }

def RedactWriter.write (rw : RedactWriter) (p : Bytes) : RedactWriter := (rw.lines p).flush

def RedactWriter.close (rw : RedactWriter) : Bytes :=
  if rw.buf = [] then rw.passed else rw.passed ++ redactBytes rw.buf rw.secrets

/-- The longest secrets first; which of two with one length comes first does not matter. -/
def longestFirst (redact : List Bytes) : List Bytes := redact.mergeSort fun s t => decide (t.length ≤ s.length)

/-- `newLogSink` where there is something to redact. -/
def newLogSink (redact : List Bytes) : RedactWriter where
  secrets := longestFirst redact
  maxLen := (redact.map (·.length)).foldl max 0

/-- What the sink of a writer has got once it is closed. -/
def RedactWriter.log (rw : RedactWriter) (writes : List Bytes) : Bytes := (writes.foldl RedactWriter.write rw).close

/-- What a log has got; with nothing to redact the writes pass straight through. -/
def taskLog (redact : List Bytes) (writes : List Bytes) : Bytes :=
  if redact = [] then writes.flatten else (newLogSink redact).log writes

/-! ### Whole lines -/

/-- The lines of a text, with the newlines they end with; the last need not have one. -/
def linesFrom : Bytes → Bytes → List Bytes
  | line, [] => if line = [] then [] else [line]
  | line, c :: cs => if c = newline then (line ++ [c]) :: linesFrom [] cs else linesFrom (line ++ [c]) cs

def wholeLines (text : Bytes) : List Bytes := linesFrom [] text

/-- The log with every line masked as a whole. -/
def redactLines (secrets : List Bytes) (line text : Bytes) : Bytes := (linesFrom line text).flatMap (redactBytes · secrets)

/-- The text to the end of its first line. -/
def lineRest : Bytes → Bytes
  | [] => []
  | c :: cs => if c = newline then [c] else c :: lineRest cs

def afterLine : Bytes → Bytes
  | [] => []
  | c :: cs => if c = newline then cs else afterLine cs

/-- No flush comes inside a secret, masked with the rest of its line, that has begun with another. -/
def Clear (rw : RedactWriter) : List Bytes → Prop
  | [] => True
  | p :: ps => (redactBufCap < (rw.lines p).buf.length →
      Clean rw.secrets (overhang rw.secrets (rw.lines p).buf (lineRest ps.flatten))) ∧ Clear (rw.write p) ps

/-- What the code asks of secrets. -/
structure Plain (secrets : List Bytes) : Prop where
  newline : ∀ s ∈ secrets, newline ∉ s
  asterisk : ∀ s ∈ secrets, asterisk ∉ s

section Redact

variable {secrets : List Bytes}

theorem mask_stars : ∀ c ∈ redactMask, c = asterisk := fun _ member => List.eq_of_mem_replicate member

theorem mask_ne_nil : redactMask ≠ [] := by decide

theorem redactBytes_eq (b : Bytes) : redactBytes b secrets = masked secrets redactMask b := by
  unfold redactBytes
  split
  · rfl
  · rename_i absent
    refine (masked_of_clean fun s member present inside => absent ?_).symm
    simp only [List.any_eq_true, decide_eq_true_eq]
    exact ⟨s, member, present, inside⟩

theorem passLines_append {line buf : Bytes} (bare : newline ∉ buf) (text : Bytes) :
    passLines secrets line (buf ++ text) = passLines secrets (line ++ buf) text := by
  induction buf generalizing line with
  | nil => rw [List.nil_append, List.append_nil]
  | cons c buf ih =>
    have other : c ≠ newline := fun same => bare (same ▸ List.mem_cons_self)
    rw [List.cons_append]
    conv => lhs; unfold passLines
    rw [if_neg other, ih fun inside => bare (List.mem_cons_of_mem c inside), List.append_assoc]
    rfl

end Redact

/-! ### Nothing leaks -/

/-- What has been passed on has no secret, and none begins in it that the buffer can still complete: the next masking
is of a text that the buffer starts. -/
structure Guarded (secrets : List Bytes) (maxLen : Nat) (passed buf : Bytes) : Prop where
  clean : Clean secrets passed
  bare : newline ∉ buf
  apart : ∀ s ∈ secrets, ∀ x y, s = x ++ y → x ≠ [] → x <:+ passed → ¬ y <+: buf
  room : (∀ x, x ≠ [] → x <:+ passed → newline ∈ x) ∨ maxLen - 1 ≤ buf.length ∨ asterisk ∈ buf

section Guard

variable {secrets : List Bytes} {maxLen : Nat} {passed buf : Bytes}

theorem suffix_concat_mem {x text : Bytes} {c : UInt8} (present : x ≠ []) (ends : x <:+ text ++ [c]) : c ∈ x := by
  rw [List.suffix_concat_iff] at ends
  rcases ends with rfl | ⟨t, rfl, _⟩
  · exact absurd rfl present
  · simp

variable (plain : Plain secrets) (longest : ∀ s ∈ secrets, s.length ≤ maxLen)

include plain longest

theorem Guarded.straddle (guarded : Guarded secrets maxLen passed buf) (more : Bytes) {s x y : Bytes} (member : s ∈ secrets)
    (split : s = x ++ y) (begun : x ≠ []) (ends : x <:+ passed) : ¬ y <+: buf ++ more := by
  intro start
  refine guarded.apart s member x y split begun ends ?_
  rcases guarded.room with line | long | star
  · exact absurd (split ▸ List.mem_append_left y (line x begun ends)) (plain.newline s member)
  · have shorter : y.length ≤ maxLen - 1 := by
      have whole := longest s member
      have positive := List.length_pos_iff.mpr begun
      rw [split, List.length_append] at whole
      omega
    exact List.prefix_of_prefix_length_le start (List.prefix_append buf more) (le_trans shorter long)
  · obtain ⟨before, after, rfl⟩ := List.append_of_mem star
    have free : asterisk ∉ y := fun inside => plain.asterisk s member (split ▸ List.mem_append_right x inside)
    rw [List.append_assoc, List.cons_append] at start
    exact (prefix_of_star free start).trans (List.prefix_append before _)

theorem Guarded.passes (guarded : Guarded secrets maxLen passed buf) (more : Bytes) :
    Clean secrets (passed ++ redactBytes (buf ++ more) secrets) := by
  intro s member present inside
  rw [redactBytes_eq, List.infix_append_iff] at inside
  have hidden := masked_clean mask_stars mask_ne_nil plain.asterisk (buf ++ more) s member present
  rcases inside with before | after | ⟨x, y, split, ends, start⟩
  · exact guarded.clean s member present before
  · exact hidden after
  · by_cases begun : x = []
    · rw [begun, List.nil_append] at split
      exact hidden (split ▸ start.isInfix)
    · have free : asterisk ∉ y := fun inside => plain.asterisk s member (split ▸ List.mem_append_right x inside)
      exact guarded.straddle plain longest more member split begun ends (prefix_of_masked mask_stars mask_ne_nil free start)

theorem Guarded.byte (guarded : Guarded secrets maxLen passed buf) {c : UInt8} (other : c ≠ newline) :
    Guarded secrets maxLen passed (buf ++ [c]) where
  clean := guarded.clean
  bare := by simp [guarded.bare, Ne.symm other]
  apart := fun _ member _ _ split begun ends => guarded.straddle plain longest [c] member split begun ends
  room := by
    rcases guarded.room with line | long | star
    · exact .inl line
    · exact .inr (.inl (by simp; omega))
    · exact .inr (.inr (List.mem_append_left [c] star))

/-- A line is passed on with its newline, after which every secret begins anew. -/
theorem Guarded.line (guarded : Guarded secrets maxLen passed buf) :
    Guarded secrets maxLen (passed ++ redactBytes (buf ++ [newline]) secrets) [] := by
  have ended : ∀ x : Bytes, x ≠ [] → x <:+ passed ++ redactBytes (buf ++ [newline]) secrets → newline ∈ x := by
    intro x begun ends
    rw [redactBytes_eq, masked_concat plain.newline, ← List.append_assoc] at ends
    exact suffix_concat_mem begun ends
  refine ⟨guarded.passes plain longest [newline], by simp, ?_, .inl ended⟩
  intro s member x y split begun ends _
  exact plain.newline s member (split ▸ List.mem_append_left y (ended x begun ends))

theorem Guarded.passLines (guarded : Guarded secrets maxLen passed buf) (text : Bytes) :
    Guarded secrets maxLen (passed ++ (passLines secrets buf text).1) (passLines secrets buf text).2 := by
  induction text generalizing passed buf with
  | nil => simpa [Executor.passLines] using guarded
  | cons c cs ih =>
    unfold Executor.passLines
    split
    · rename_i same
      have later := ih (same ▸ guarded.line plain longest)
      simpa [same] using later
    · rename_i other
      exact ih (guarded.byte plain longest other)

end Guard

/-- The end of a masked buffer stands for what it was, and the start of it has been passed on without a secret. -/
theorem Guarded.flush {rw : RedactWriter} (guarded : Guarded rw.secrets rw.maxLen rw.passed rw.buf) (plain : Plain rw.secrets)
    (longest : ∀ s ∈ rw.secrets, s.length ≤ rw.maxLen) : Guarded rw.secrets rw.maxLen rw.flush.passed rw.flush.buf := by
  unfold RedactWriter.flush
  split
  · have whole := guarded.passes plain longest []
    rw [List.append_nil] at whole
    have kept := @redactBytes_eq rw.secrets rw.buf
    generalize redactBytes rw.buf rw.secrets = red at whole kept ⊢
    simp only
    generalize size : red.length - min (rw.maxLen - 1) red.length = n
    have parts : rw.passed ++ red.take n ++ red.drop n = rw.passed ++ red := by rw [List.append_assoc, List.take_append_drop]
    refine ⟨?_, ?_, ?_, ?_⟩
    · exact fun s member present inside => whole s member present (parts ▸ List.infix_append_of_infix_left inside)
    · intro member
      rcases mem_masked (kept ▸ List.mem_of_mem_drop member) with before | star
      · exact guarded.bare before
      · exact absurd (mask_stars newline star) (by decide)
    · rintro s member x y rfl begun ends start
      refine whole _ member (by simp [begun]) ?_
      rw [← parts, List.infix_append_iff]
      exact .inr (.inr ⟨x, y, rfl, ends, start⟩)
    · by_cases room : rw.maxLen - 1 ≤ red.length
      · exact .inr (.inl (by rw [List.length_drop]; omega))
      · obtain rfl : n = 0 := by omega
        rw [List.take_zero, List.append_nil, List.drop_zero]
        rcases guarded.room with line | long | star
        · exact .inl line
        · rcases masked_eq_or_star mask_stars mask_ne_nil rw.buf with same | star
          · rw [kept, same] at room
            exact absurd long room
          · exact .inr (.inr (kept ▸ star))
        · exact .inr (.inr (kept ▸ star_mem_masked plain.asterisk star))
  · exact guarded

section Run

variable {rw : RedactWriter}

@[simp] theorem RedactWriter.flush_secrets : rw.flush.secrets = rw.secrets := by
  unfold RedactWriter.flush
  split <;> rfl

@[simp] theorem RedactWriter.flush_maxLen : rw.flush.maxLen = rw.maxLen := by
  unfold RedactWriter.flush
  split <;> rfl

@[simp] theorem RedactWriter.write_secrets (p : Bytes) : (rw.write p).secrets = rw.secrets := RedactWriter.flush_secrets

@[simp] theorem RedactWriter.write_maxLen (p : Bytes) : (rw.write p).maxLen = rw.maxLen := RedactWriter.flush_maxLen

theorem RedactWriter.lines_eq (bare : newline ∉ rw.buf) (p : Bytes) :
    rw.lines p = { rw with
      passed := rw.passed ++ (passLines rw.secrets rw.buf p).1
      buf := (passLines rw.secrets rw.buf p).2 } := by
  unfold RedactWriter.lines
  rw [passLines_append bare, List.nil_append]

theorem Guarded.write (guarded : Guarded rw.secrets rw.maxLen rw.passed rw.buf) (plain : Plain rw.secrets)
    (longest : ∀ s ∈ rw.secrets, s.length ≤ rw.maxLen) (p : Bytes) :
    Guarded (rw.write p).secrets (rw.write p).maxLen (rw.write p).passed (rw.write p).buf := by
  have lines := guarded.passLines plain longest p
  unfold RedactWriter.write
  rw [RedactWriter.lines_eq guarded.bare, RedactWriter.flush_secrets, RedactWriter.flush_maxLen]
  exact Guarded.flush lines plain longest

theorem Guarded.log (guarded : Guarded rw.secrets rw.maxLen rw.passed rw.buf) (plain : Plain rw.secrets)
    (longest : ∀ s ∈ rw.secrets, s.length ≤ rw.maxLen) (writes : List Bytes) : Clean rw.secrets (rw.log writes) := by
  induction writes generalizing rw with
  | nil =>
    have whole := guarded.passes plain longest []
    change Clean rw.secrets rw.close
    unfold RedactWriter.close
    split
    · exact guarded.clean
    · rwa [List.append_nil] at whole
  | cons p writes ih =>
    have later := ih (guarded.write plain longest p)
    rw [RedactWriter.write_secrets, RedactWriter.write_maxLen] at later
    exact later plain longest

end Run

theorem mem_longestFirst {redact : List Bytes} {s : Bytes} : s ∈ longestFirst redact ↔ s ∈ redact := List.mem_mergeSort

theorem length_le_maxLen {redact : List Bytes} {s : Bytes} (member : s ∈ redact) : s.length ≤ (newLogSink redact).maxLen := by
  have grows : ∀ (lengths : List Nat) (n : Nat), n ≤ lengths.foldl max n ∧ ∀ m ∈ lengths, m ≤ lengths.foldl max n := by
    intro lengths
    induction lengths with
    | nil => simp
    | cons m lengths ih =>
      intro n
      obtain ⟨start, each⟩ := ih (max n m)
      rw [List.foldl_cons]
      exact ⟨le_trans (le_max_left n m) start, List.forall_mem_cons.mpr ⟨le_trans (le_max_right n m) start, each⟩⟩
  exact (grows _ 0).2 s.length (List.mem_map_of_mem member)

theorem plain_longestFirst {redact : List Bytes} (plain : Plain redact) : Plain (longestFirst redact) :=
  ⟨fun s member => plain.newline s (mem_longestFirst.mp member), fun s member => plain.asterisk s (mem_longestFirst.mp member)⟩

theorem newLogSink_guarded (redact : List Bytes) : Guarded (newLogSink redact).secrets (newLogSink redact).maxLen [] [] where
  clean _ _ present inside := present (List.infix_nil.mp inside)
  bare := by simp
  apart _ _ _ _ _ begun ends _ := begun (List.suffix_nil.mp ends)
  room := .inl fun _ begun ends => absurd (List.suffix_nil.mp ends) begun

/-- However it is written, no log has a secret in it. -/
theorem taskLog_clean (redact : List Bytes) (writes : List Bytes)
    (plain : ∀ s ∈ redact, s ≠ [] ∧ newline ∉ s ∧ asterisk ∉ s) : ∀ s ∈ redact, ¬ s <:+: taskLog redact writes := by
  intro s member
  have given : redact ≠ [] := List.ne_nil_of_mem member
  have sorted : Plain (longestFirst redact) :=
    plain_longestFirst ⟨fun s listed => (plain s listed).2.1, fun s listed => (plain s listed).2.2⟩
  have clean := (newLogSink_guarded redact).log sorted (fun s listed => length_le_maxLen (mem_longestFirst.mp listed)) writes
  unfold taskLog
  rw [if_neg given]
  exact clean s (mem_longestFirst.mpr member) (plain s member).1

/-! ### Whole lines -/

section Lines

variable {secrets : List Bytes}

theorem redactLines_nil (line : Bytes) : redactLines secrets line [] = redactBytes line secrets := by
  unfold redactLines linesFrom
  split
  · rename_i empty
    rw [empty, redactBytes_eq]
    rfl
  · simp

theorem redactLines_newline (line text : Bytes) :
    redactLines secrets line (newline :: text) = redactBytes (line ++ [newline]) secrets ++ redactLines secrets [] text := by
  conv => lhs; unfold redactLines linesFrom
  rw [if_pos rfl, List.flatMap_cons]
  rfl

theorem redactLines_byte {c : UInt8} (other : c ≠ newline) (line text : Bytes) :
    redactLines secrets line (c :: text) = redactLines secrets (line ++ [c]) text := by
  conv => lhs; unfold redactLines linesFrom
  rw [if_neg other]
  rfl

theorem passLines_newline (line text : Bytes) :
    passLines secrets line (newline :: text) =
      (redactBytes (line ++ [newline]) secrets ++ (passLines secrets [] text).1, (passLines secrets [] text).2) := by
  conv => lhs; unfold passLines
  rw [if_pos rfl]

theorem passLines_byte {c : UInt8} (other : c ≠ newline) (line text : Bytes) :
    passLines secrets line (c :: text) = passLines secrets (line ++ [c]) text := by
  conv => lhs; unfold passLines
  rw [if_neg other]

theorem redactLines_append (line text future : Bytes) :
    redactLines secrets line (text ++ future) =
      (passLines secrets line text).1 ++ redactLines secrets (passLines secrets line text).2 future := by
  induction text generalizing line with
  | nil => rfl
  | cons c cs ih =>
    rw [List.cons_append]
    by_cases ends : c = newline
    · rw [ends, redactLines_newline, passLines_newline, ih, List.append_assoc]
    · rw [redactLines_byte ends, passLines_byte ends, ih]

/-- The line that has begun is masked with the rest of it. -/
theorem redactLines_rest (line text : Bytes) :
    redactLines secrets line text = redactBytes (line ++ lineRest text) secrets ++ redactLines secrets [] (afterLine text) := by
  induction text generalizing line with
  | nil =>
    have empty : redactBytes [] secrets = [] := by rw [redactBytes_eq, masked_nil]
    simp only [lineRest, afterLine, redactLines_nil, List.append_nil, empty]
  | cons c cs ih =>
    by_cases ends : c = newline
    · simp only [lineRest, afterLine, if_pos ends]
      rw [ends, redactLines_newline]
    · simp only [lineRest, afterLine, if_neg ends]
      rw [redactLines_byte ends, ih, List.append_assoc]
      rfl

theorem passLines_line {line text : Bytes} (bare : newline ∉ text) :
    passLines secrets line text = ([], line ++ text) ∧
      passLines secrets line (text ++ [newline]) = (redactBytes (line ++ text ++ [newline]) secrets, []) := by
  have through := @passLines_append secrets line text bare
  constructor
  · have all := through []
    rw [List.append_nil] at all
    exact all
  · rw [through [newline]]
    unfold passLines
    rw [if_pos rfl]
    simp [passLines]

end Lines

section Run

variable {rw : RedactWriter}

theorem overhang_short (longest : ∀ s ∈ rw.secrets, s.length ≤ rw.maxLen) (text rest : Bytes) :
    (overhang rw.secrets text rest).length ≤ rw.maxLen - 1 := by
  rcases @overhang_word _ _ rw.secrets rest text with none_over | ⟨s, member, more, goes_on, split⟩
  · simp [none_over]
  · have whole := longest s member
    have positive := List.length_pos_iff.mpr goes_on
    have length : s.length = (overhang rw.secrets text rest).length + more.length := by rw [← List.length_append, ← split]
    omega

/-- A clear flush changes nothing of what the line will give. -/
theorem flush_lines (plain : Plain rw.secrets) (longest : ∀ s ∈ rw.secrets, s.length ≤ rw.maxLen) (future : Bytes)
    (clear : redactBufCap < rw.buf.length → Clean rw.secrets (overhang rw.secrets rw.buf (lineRest future))) :
    rw.flush.passed ++ redactLines rw.secrets rw.flush.buf future = rw.passed ++ redactLines rw.secrets rw.buf future := by
  unfold RedactWriter.flush
  split
  · rename_i full
    have flushed := masked_flush mask_stars mask_ne_nil plain.asterisk rw.buf (clear full) (overhang_short longest rw.buf _)
    simp only [redactLines_rest _ future, redactBytes_eq]
    have cut : (masked rw.secrets redactMask rw.buf).length - min (rw.maxLen - 1) (masked rw.secrets redactMask rw.buf).length =
        (masked rw.secrets redactMask rw.buf).length - (rw.maxLen - 1) := by omega
    rw [cut, ← flushed]
    simp only [List.append_assoc]
  · rfl

theorem log_lines (guarded : Guarded rw.secrets rw.maxLen rw.passed rw.buf) (plain : Plain rw.secrets)
    (longest : ∀ s ∈ rw.secrets, s.length ≤ rw.maxLen) {writes : List Bytes} (clear : Clear rw writes) :
    rw.log writes = rw.passed ++ redactLines rw.secrets rw.buf writes.flatten := by
  induction writes generalizing rw with
  | nil =>
    change rw.close = _
    unfold RedactWriter.close
    rw [List.flatten_nil, redactLines_nil]
    split
    · rename_i empty
      rw [empty, redactBytes_eq, masked_nil, List.append_nil]
    · rfl
  | cons p writes ih =>
    obtain ⟨clean, later⟩ := clear
    have lines := RedactWriter.lines_eq guarded.bare p
    have rest := ih (guarded.write plain longest p) (by simpa using plain) (by simpa using longest) later
    have flushed := @flush_lines (rw.lines p) plain longest writes.flatten clean
    rw [RedactWriter.write_secrets] at rest
    change (rw.write p).log writes = _
    rw [rest, List.flatten_cons, redactLines_append, ← List.append_assoc]
    rw [show rw.passed ++ (passLines rw.secrets rw.buf p).1 = (rw.lines p).passed by rw [lines],
      show (passLines rw.secrets rw.buf p).2 = (rw.lines p).buf by rw [lines]]
    exact flushed

end Run

/-! ### Secrets in secrets -/

/-- A line of asterisks that outgrows the buffer within a secret, and the rest of the secret. -/
def splitWrites (front back : Bytes) : List Bytes := [List.replicate redactBufCap asterisk ++ front, back ++ [newline]]

section Nested

variable {rw : RedactWriter} {front back : Bytes}

/-- The whole line has a mask for the secret. -/
theorem redactLines_split (plain : Plain rw.secrets) (longest : rw.secrets.Pairwise fun s t => t.length ≤ s.length)
    (member : front ++ back ∈ rw.secrets) (present : front ≠ []) :
    redactLines rw.secrets [] (splitWrites front back).flatten =
      List.replicate redactBufCap asterisk ++ (redactMask ++ [newline]) := by
  have bare : newline ∉ List.replicate redactBufCap asterisk ++ (front ++ back) := by
    intro inside
    rcases List.mem_append.mp inside with star | secret
    · exact absurd (List.eq_of_mem_replicate star) (by decide)
    · exact plain.newline _ member secret
  have text : (splitWrites front back).flatten = List.replicate redactBufCap asterisk ++ (front ++ back) ++ [newline] ++ [] := by
    simp [splitWrites]
  have secret : front ++ back ≠ [] := List.append_ne_nil_of_left_ne_nil present back
  rw [text, redactLines_append, (passLines_line bare).2, redactLines_nil, redactBytes_eq, redactBytes_eq, List.nil_append,
    List.append_assoc, masked_stars_append plain.asterisk (fun c => List.eq_of_mem_replicate),
    masked_append (firstMatch_longest longest plain.newline member secret)]
  have last : masked rw.secrets redactMask [newline] = [newline] := masked_concat plain.newline []
  rw [last, masked_nil, List.append_nil]

/-- A full buffer that has a mask near its end: the flush passes on what comes before the mask's last mark at most. -/
theorem flush_near_mask {text kept after : Bytes} (shape : masked rw.secrets redactMask text = kept ++ asterisk :: after)
    (full : redactBufCap < text.length) (near : after.length + 1 ≤ rw.maxLen - 1) :
    ∃ n, ({ rw with passed := [], buf := text } : RedactWriter).flush =
      { rw with passed := kept.take n, buf := kept.drop n ++ asterisk :: after } := by
  have cut : (kept ++ asterisk :: after).length - min (rw.maxLen - 1) (kept ++ asterisk :: after).length ≤ kept.length := by
    rw [List.length_append, List.length_cons]
    omega
  refine ⟨(kept ++ asterisk :: after).length - min (rw.maxLen - 1) (kept ++ asterisk :: after).length, ?_⟩
  unfold RedactWriter.flush
  simp only [if_pos full, redactBytes_eq, shape, List.nil_append]
  rw [List.take_append_of_le_length cut, List.drop_append_of_le_length cut]

/-- A line that ends a buffer with a mask in it is masked from that mask on. -/
theorem write_after_mask {passed left after : Bytes} (plain : Plain rw.secrets) (clean : Clean rw.secrets left)
    (bareLeft : newline ∉ left ++ asterisk :: after) (bareBack : newline ∉ back) :
    (({ rw with passed := passed, buf := left ++ asterisk :: after } : RedactWriter).write (back ++ [newline])).close =
      passed ++ (left ++ asterisk :: (masked rw.secrets redactMask (after ++ back) ++ [newline])) := by
  have ends : masked rw.secrets redactMask (left ++ asterisk :: after ++ back ++ [newline]) =
      left ++ asterisk :: (masked rw.secrets redactMask (after ++ back) ++ [newline]) := by
    have parts : left ++ asterisk :: after ++ back ++ [newline] = left ++ asterisk :: (after ++ back ++ [newline]) := by simp
    rw [parts, masked_clean_star plain.asterisk clean, masked_concat plain.newline]
  have small : ¬ redactBufCap < ([] : Bytes).length := by simp
  unfold RedactWriter.write
  rw [RedactWriter.lines_eq bareLeft, (passLines_line bareBack).2]
  unfold RedactWriter.flush
  simp only [if_neg small]
  unfold RedactWriter.close
  rw [if_pos rfl, redactBytes_eq, ends]

/-- What is passed on of the same writes is longer, by what comes after the secret that is masked in the front. -/
theorem log_split_length (plain : Plain rw.secrets) (started : rw.passed = [] ∧ rw.buf = [])
    (fits : front.length + back.length ≤ rw.maxLen) (bare : newline ∉ front ++ back) (goes_on : back ≠ [])
    (dirty : ¬ Clean rw.secrets front) : redactBufCap + 6 ≤ (rw.log (splitWrites front back)).length := by
  have bareFirst : newline ∉ List.replicate redactBufCap asterisk ++ front := by
    intro inside
    rcases List.mem_append.mp inside with star | secret
    · exact absurd (List.eq_of_mem_replicate star) (by decide)
    · exact bare (List.mem_append_left back secret)
  obtain ⟨before, after, split, shorter⟩ := @masked_of_dirty _ _ rw.secrets redactMask front dirty
  have more := List.length_pos_iff.mpr goes_on
  -- the last mark of the last mask, and what comes before it
  generalize keptIs : List.replicate redactBufCap asterisk ++ (before ++ List.replicate 3 asterisk) = kept
  have shape : masked rw.secrets redactMask (List.replicate redactBufCap asterisk ++ front) = kept ++ asterisk :: after := by
    rw [masked_stars_append plain.asterisk (fun c => List.eq_of_mem_replicate), split, ← keptIs]
    simp [redactMask, List.replicate]
  have full : redactBufCap < (List.replicate redactBufCap asterisk ++ front).length := by
    rw [List.length_append, List.length_replicate]
    omega
  obtain ⟨n, flushed⟩ := flush_near_mask shape full (by omega)
  have first : rw.write (List.replicate redactBufCap asterisk ++ front) =
      { rw with passed := kept.take n, buf := kept.drop n ++ asterisk :: after } := by
    rw [← flushed]
    unfold RedactWriter.write
    rw [RedactWriter.lines_eq (by simp [started.2]), (passLines_line bareFirst).1, started.1, started.2]
    rfl
  have whole : kept.take n ++ (kept.drop n ++ asterisk :: after) = kept ++ asterisk :: after := by
    rw [← List.append_assoc, List.take_append_drop]
  have clean : Clean rw.secrets (kept.drop n) := by
    intro s member present inside
    refine masked_clean mask_stars mask_ne_nil plain.asterisk (List.replicate redactBufCap asterisk ++ front) s member present ?_
    rw [shape]
    exact inside.trans ((List.drop_suffix n kept).isInfix.trans (List.prefix_append kept _).isInfix)
  have bareLeft : newline ∉ kept.drop n ++ asterisk :: after := by
    intro inside
    have member : newline ∈ kept ++ asterisk :: after := whole ▸ List.mem_append_right _ inside
    rw [← shape] at member
    rcases mem_masked member with text | star
    · exact bareFirst text
    · exact absurd (mask_stars newline star) (by decide)
  have bareBack : newline ∉ back := fun inside => bare (List.mem_append_right front inside)
  have closed := @write_after_mask rw back (kept.take n) (kept.drop n) after plain clean bareLeft bareBack
  have rest : masked rw.secrets redactMask (after ++ back) ≠ [] :=
    masked_ne_nil mask_ne_nil (List.append_ne_nil_of_right_ne_nil after goes_on)
  have positive := List.length_pos_iff.mpr rest
  have length : kept.length = redactBufCap + (before.length + 3) := by
    rw [← keptIs, List.length_append, List.length_append, List.length_replicate, List.length_replicate]
  change redactBufCap + 6 ≤ ((rw.write (List.replicate redactBufCap asterisk ++ front)).write (back ++ [newline])).close.length
  rw [first, closed, ← List.append_assoc, List.take_append_drop, List.length_append, List.length_cons, List.length_append,
    List.length_singleton]
  omega

end Nested

/-! ### The log of a task -/

/-- No secret has another one in it that ends before it does. -/
def Flat (secrets : List Bytes) : Prop :=
  ∀ s ∈ secrets, ∀ q ∈ secrets, ∀ before after, q ≠ [] → s = before ++ q ++ after → after = []

section Log

variable {redact : List Bytes}

theorem longestFirst_pairwise (redact : List Bytes) : (longestFirst redact).Pairwise fun s t => t.length ≤ s.length := by
  have order : ∀ a b c : Bytes, decide (b.length ≤ a.length) = true → decide (c.length ≤ b.length) = true →
      decide (c.length ≤ a.length) = true := by
    intro a b c first second
    simp only [decide_eq_true_eq] at first second ⊢
    omega
  have total : ∀ a b : Bytes, (decide (b.length ≤ a.length) || decide (a.length ≤ b.length)) = true := by
    intro a b
    simp only [Bool.or_eq_true, decide_eq_true_eq]
    omega
  exact (List.pairwise_mergeSort order total redact).imp fun longer => by simpa using longer

theorem clear_of_flat {rw : RedactWriter} (flat : Flat rw.secrets) (writes : List Bytes) : Clear rw writes := by
  induction writes generalizing rw with
  | nil => trivial
  | cons p writes ih =>
    refine ⟨fun _ q member present inside => ?_, ih (by simpa using flat)⟩
    obtain ⟨before, after, split⟩ := inside
    rcases @overhang_word _ _ rw.secrets (lineRest writes.flatten) (rw.lines p).buf with none_over | ⟨s, listed, more, goes_on, whole⟩
    · rw [none_over] at split
      exact present (List.append_eq_nil_iff.mp (List.append_eq_nil_iff.mp split).1).2
    · have ends := flat s listed q member before (after ++ more) present (by rw [whole, ← split]; simp)
      exact goes_on (List.append_eq_nil_iff.mp ends).2

theorem redactLines_none (line text : Bytes) : redactLines [] line text = line ++ text := by
  induction text generalizing line with
  | nil => rw [redactLines_nil, List.append_nil]; rfl
  | cons c cs ih =>
    by_cases ends : c = newline
    · rw [ends, redactLines_newline, ih]
      simp [redactBytes]
    · rw [redactLines_byte ends, ih, List.append_assoc]
      rfl

theorem taskLog_clear (plain : Plain redact) {writes : List Bytes} (clear : Clear (newLogSink redact) writes) :
    taskLog redact writes = redactLines (longestFirst redact) [] writes.flatten := by
  unfold taskLog
  split
  · rename_i none_given
    have none_sorted : longestFirst [] = [] := List.mergeSort_nil
    rw [none_given, none_sorted, redactLines_none, List.nil_append]
  · exact log_lines (newLogSink_guarded redact) (plain_longestFirst plain)
      (fun s member => length_le_maxLen (mem_longestFirst.mp member)) clear

/-- A flush within the longer secret leaves the rest of it. -/
theorem taskLog_nested (plain : Plain redact) {s q before after : Bytes} (member : s ∈ redact) (inner : q ∈ redact) (present : q ≠ [])
    (split : s = before ++ q ++ after) (goes_on : after ≠ []) :
    taskLog redact (splitWrites (before ++ q) after) ≠ redactLines (longestFirst redact) [] (splitWrites (before ++ q) after).flatten := by
  have sorted := plain_longestFirst plain
  have listed : before ++ q ++ after ∈ longestFirst redact := mem_longestFirst.mpr (split ▸ member)
  have fits := length_le_maxLen (split ▸ member)
  rw [List.length_append] at fits
  have dirty : ¬ Clean (longestFirst redact) (before ++ q) := fun clean =>
    clean q (mem_longestFirst.mpr inner) present (List.suffix_append before q).isInfix
  have long := @log_split_length (newLogSink redact) (before ++ q) after sorted ⟨rfl, rfl⟩ fits (sorted.newline _ listed) goes_on dirty
  have whole := @redactLines_split (newLogSink redact) (before ++ q) after sorted (longestFirst_pairwise redact) listed
    (List.append_ne_nil_of_right_ne_nil before present)
  unfold taskLog
  rw [if_neg (List.ne_nil_of_mem member)]
  intro same
  rw [same] at long
  change redactLines (longestFirst redact) [] _ = _ at whole
  rw [whole] at long
  simp only [List.length_append, List.length_replicate, redactMask, List.length_singleton] at long
  omega

end Log

/-- A log is what its lines give when they are masked as a whole, unless a flush comes inside a secret that has begun with
another; and for every log exactly where no secret has another in it that ends before it does. -/
theorem taskLog_lines (redact : List Bytes) (plain : ∀ s ∈ redact, newline ∉ s ∧ asterisk ∉ s) :
    (∀ writes, Clear (newLogSink redact) writes →
      taskLog redact writes = (wholeLines writes.flatten).flatMap (redactBytes · (longestFirst redact))) ∧
    ((∀ writes, taskLog redact writes = (wholeLines writes.flatten).flatMap (redactBytes · (longestFirst redact))) ↔ Flat redact) := by
  have plain' : Plain redact := ⟨fun s member => (plain s member).1, fun s member => (plain s member).2⟩
  refine ⟨fun writes clear => taskLog_clear plain' clear, ?_, ?_⟩
  · intro same s member q inner before after present split
    by_contra goes_on
    exact taskLog_nested plain' member inner present split goes_on (same _)
  · intro flat writes
    have flatSorted : Flat (newLogSink redact).secrets := fun s member q inner =>
      flat s (mem_longestFirst.mp member) q (mem_longestFirst.mp inner)
    exact taskLog_clear plain' (clear_of_flat flatSorted writes)

/-- `TOPSECRET`. -/
def topSecret : Bytes := [84, 79, 80, 83, 69, 67, 82, 69, 84]

/-- `pass` and `password`. -/
def nestedSecrets : List Bytes := [[112, 97, 115, 115], [112, 97, 115, 115, 119, 111, 114, 100]]

theorem topSecret_lines : taskLog [topSecret] [[84, 79, 80], [83, 69, 67, 82, 69, 84, 10]] =
    (wholeLines [[84, 79, 80], [83, 69, 67, 82, 69, 84, 10]].flatten).flatMap (redactBytes · (longestFirst [topSecret])) := by
  refine (taskLog_lines [topSecret] (by decide)).2.mpr ?_ _
  intro s member q inner before after _ split
  rw [List.mem_singleton.mp member, List.mem_singleton.mp inner] at split
  have lengths := congrArg List.length split
  simp only [List.length_append] at lengths
  exact List.length_eq_zero_iff.mp (by omega)

theorem nestedSecrets_clean : ¬ [112, 97, 115, 115, 119, 111, 114, 100] <:+:
    taskLog nestedSecrets [[112, 97, 115], [115, 119, 111], [114, 100, 33, 10], [112, 97, 115, 115]] :=
  taskLog_clean nestedSecrets _ (by decide) _ (by decide)

/-- The mask of the one secret is passed on with the rest of the other. -/
theorem nestedSecrets_split :
    taskLog nestedSecrets (splitWrites [112, 97, 115, 115] [119, 111, 114, 100]) ≠
      (wholeLines (splitWrites [112, 97, 115, 115] [119, 111, 114, 100]).flatten).flatMap (redactBytes · (longestFirst nestedSecrets)) := by
  have plain : Plain nestedSecrets := ⟨by decide, by decide⟩
  have listed : [112, 97, 115, 115, 119, 111, 114, 100] ∈ nestedSecrets := by decide
  exact @taskLog_nested nestedSecrets plain _ [112, 97, 115, 115] [] [119, 111, 114, 100] listed (by decide) (by decide) rfl (by decide)

end Cronova.Executor

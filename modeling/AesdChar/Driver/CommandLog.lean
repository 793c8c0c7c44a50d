import AesdChar.CodeLib.Cut
import AesdChar.CodeLib.Ring
import AesdChar.Driver.Basic

/-!
# What the driver is for

A `CommandLog` is the history of the device as its users see it: the commands
that were finished since the module was loaded, oldest first, and the bytes
of the command that is still open.  A write extends the open command, and
closes it if the payload holds a newline.  The device shows the last ten
finished commands.

The whole history is `cut` applied to the payloads, so the log of a run can
be read off the payloads without the code.
-/

namespace AesdChar

open CodeLib CodeLib.Ring

/-- The finished commands and the open one. -/
@[ext] structure CommandLog where
  closed : List (List Byte)
  pending : List Byte
  newline_mem : ∀ c ∈ closed, newline ∈ c
  newline_notMem : newline ∉ pending

/-- Whether a payload finishes a command. -/
def hasNewline (w : List Byte) : Bool := decide (newline ∈ w)

@[simp] theorem hasNewline_eq_true {w : List Byte} : hasNewline w = true ↔ newline ∈ w := by
  simp [hasNewline]

/-- The scan of `aesd_write` finds a newline if there is one. -/
theorem scanNewline_eq (w : List Byte) : scanNewline w = hasNewline w := by
  induction w with
  | nil => rfl
  | cons b bs ih =>
    rw [scanNewline, ih]
    by_cases h : b = newline
    · simp [hasNewline, h]
    · simp [hasNewline, h, Ne.symm h]

namespace CommandLog

/-- The log of a device that was never written. -/
def empty : CommandLog where
  closed := []
  pending := []
  newline_mem := by simp
  newline_notMem := by simp

/-- One successful write. -/
def write (log : CommandLog) (w : List Byte) : CommandLog :=
  if h : newline ∈ w then
    { closed := log.closed ++ [log.pending ++ w]
      pending := []
      newline_mem := by
        intro c hc
        rcases List.mem_append.mp hc with hc | hc
        · exact log.newline_mem c hc
        · rw [List.mem_singleton.mp hc]
          exact List.mem_append_right _ h
      newline_notMem := by simp }
  else
    { closed := log.closed
      pending := log.pending ++ w
      newline_mem := log.newline_mem
      newline_notMem := by
        rw [List.mem_append]
        exact not_or.mpr ⟨log.newline_notMem, h⟩ }

/-- The log after the payloads `ws`. -/
def ofWrites (ws : List (List Byte)) : CommandLog := ws.foldl write empty

/-- The commands that the device shows. -/
def visible (log : CommandLog) : List (List Byte) := log.closed.rtake maxWriteOperations

/-- The bytes that a reader can get. -/
def content (log : CommandLog) : List Byte := log.visible.flatten

/-- The bytes of all commands finished since the module was loaded. -/
def stream (log : CommandLog) : List Byte := log.closed.flatten

/-- The number of bytes of the finished commands that the device gave up. -/
def evicted (log : CommandLog) : Nat := (log.closed.rdrop maxWriteOperations).flatten.length

/-! ## Lemmas -/

theorem write_of_mem (log : CommandLog) {w : List Byte} (h : newline ∈ w) :
    (log.write w).closed = log.closed ++ [log.pending ++ w] ∧ (log.write w).pending = [] := by
  rw [write, dif_pos h]
  exact ⟨rfl, rfl⟩

theorem write_of_notMem (log : CommandLog) {w : List Byte} (h : newline ∉ w) :
    (log.write w).closed = log.closed ∧ (log.write w).pending = log.pending ++ w := by
  rw [write, dif_neg h]
  exact ⟨rfl, rfl⟩

/-- A finished command enters the commands that are shown. -/
theorem visible_write_of_mem (log : CommandLog) {w : List Byte} (h : newline ∈ w) :
    (log.write w).visible = (log.visible ++ [log.pending ++ w]).rtake maxWriteOperations := by
  rw [visible, (log.write_of_mem h).1, ← rtake_concat_rtake]
  rfl

theorem ofWrites_concat (ws : List (List Byte)) (w : List Byte) :
    ofWrites (ws ++ [w]) = (ofWrites ws).write w := by
  rw [ofWrites, List.foldl_append]
  rfl

/-- The log of a run is the cut of its payloads. -/
theorem ofWrites_eq_cut (ws : List (List Byte)) :
    (ofWrites ws).closed = (cut hasNewline ws).1.map List.flatten ∧
    (ofWrites ws).pending = (cut hasNewline ws).2.flatten := by
  induction ws using List.reverseRecOn with
  | nil => exact ⟨rfl, rfl⟩
  | append_singleton ws w ih =>
    rw [ofWrites_concat, cut_concat]
    by_cases h : newline ∈ w
    · obtain ⟨hclosed, hpending⟩ := (ofWrites ws).write_of_mem h
      rw [if_pos (hasNewline_eq_true.mpr h), hclosed, hpending, ih.1, ih.2]
      simp
    · obtain ⟨hclosed, hpending⟩ := (ofWrites ws).write_of_notMem h
      rw [if_neg (by rwa [hasNewline_eq_true]), hclosed, hpending, ih.1, ih.2]
      simp

/-- The stream is what was given up followed by what is shown. -/
theorem drop_stream (log : CommandLog) : log.stream.drop log.evicted = log.content := by
  rw [stream, content, visible, evicted]
  conv_lhs =>
    rw [← rdrop_append_rtake maxWriteOperations log.closed, List.flatten_append]
  rw [rdrop_append_rtake, List.drop_left]

/-- Every command that is shown holds a byte. -/
theorem ne_nil_of_visible (log : CommandLog) : ∀ c ∈ log.visible, c ≠ [] := by
  intro c hc hnil
  have hmem := log.newline_mem c (List.mem_of_mem_drop hc)
  rw [hnil] at hmem
  cases hmem

theorem content_eq_nil_iff (log : CommandLog) : log.content = [] ↔ log.visible = [] := by
  constructor
  · intro h
    by_contra hne
    obtain ⟨c, hc⟩ := List.exists_mem_of_ne_nil _ hne
    exact log.ne_nil_of_visible c hc (List.flatten_eq_nil_iff.mp h c hc)
  · intro h
    rw [content, h, List.flatten_nil]

/-- A finished command is the last one that is shown, after at most nine. -/
theorem content_write (log : CommandLog) {w : List Byte} (h : newline ∈ w) :
    (log.write w).content =
      (log.visible.rtake (maxWriteOperations - 1)).flatten ++ (log.pending ++ w) := by
  rw [content, log.visible_write_of_mem h, show maxWriteOperations = 9 + 1 from rfl,
    List.rtake_concat_succ, List.flatten_append, List.flatten_singleton]

/-- Behind the first bytes, as many as were written, something is left unless
the device was empty. -/
theorem drop_content_write_eq_nil_iff (log : CommandLog) {w : List Byte} (h : newline ∈ w) :
    (log.write w).content.drop w.length = [] ↔ log.visible = [] ∧ log.pending = [] := by
  rw [log.content_write h, List.drop_eq_nil_iff, List.length_append, List.length_append]
  constructor
  · intro hle
    have hzero : (log.visible.rtake (maxWriteOperations - 1)).flatten = [] :=
      List.length_eq_zero_iff.mp (by omega)
    refine ⟨?_, List.length_eq_zero_iff.mp (by omega)⟩
    by_contra hne
    obtain ⟨c, hc⟩ : ∃ c, c ∈ log.visible.rtake (maxWriteOperations - 1) := by
      refine List.exists_mem_of_ne_nil _ (List.length_pos_iff.mp ?_)
      rw [length_rtake, show maxWriteOperations - 1 = 9 from rfl]
      have := List.length_pos_iff.mpr hne
      omega
    exact log.ne_nil_of_visible c (List.mem_of_mem_drop hc) (List.flatten_eq_nil_iff.mp hzero c hc)
  · rintro ⟨hvisible, hpending⟩
    rw [hvisible, hpending]
    simp [List.rtake]

end CommandLog

end AesdChar

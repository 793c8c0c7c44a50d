import AesdChar.Driver.History

/-!
# Which splittings of a stream give the same commands

The scan of `aesd_write` asks whether a payload holds a newline, not where,
and a hit closes the open command with the whole payload.  So the commands
are the lines of the stream as long as a newline is always the last byte of
its payload (`CommandLog.ofWrites_eq_lines`), and no longer
(`one_newline_iff`).
-/

namespace AesdChar

open CodeLib CodeLib.CInt CodeLib.Ring

/-- The byte test behind the lines of a stream. -/
def isNewline (b : Byte) : Bool := b == newline

@[simp] theorem isNewline_eq_true {b : Byte} : isNewline b = true ↔ b = newline := by
  simp [isNewline]

/-- The finished lines of a stream and its open end. -/
def lines (stream : List Byte) : List (List Byte) × List Byte := cut isNewline stream

/-- A payload whose only newline can be its last byte. -/
def NewlineLast (w : List Byte) : Prop := newline ∉ w.dropLast

instance (w : List Byte) : Decidable (NewlineLast w) := by
  unfold NewlineLast
  infer_instance

/-- A line is some bytes without a newline, then a newline. -/
theorem eq_of_mem_lines {stream line : List Byte} (h : line ∈ (lines stream).1) :
    ∃ body, line = body ++ [newline] ∧ newline ∉ body := by
  obtain ⟨body, last, rfl, hlast, hbody⟩ := cut_group isNewline stream line h
  refine ⟨body, by rw [isNewline_eq_true.mp hlast], fun hmem => ?_⟩
  have := hbody newline hmem
  simp [isNewline] at this

/-- Payloads that end at the newlines cut the stream at its newlines. -/
theorem CommandLog.ofWrites_eq_lines {ws : List (List Byte)} (h : ∀ w ∈ ws, NewlineLast w) :
    (ofWrites ws).closed = (lines ws.flatten).1 ∧ (ofWrites ws).pending = (lines ws.flatten).2 := by
  induction ws using List.reverseRecOn with
  | nil => exact ⟨rfl, rfl⟩
  | append_singleton ws w ih =>
    obtain ⟨hclosed, hpending⟩ := ih fun v hv => h v (List.mem_append_left _ hv)
    have hlast : ∀ b ∈ w.dropLast, isNewline b = false := by
      intro b hb
      rw [← Bool.not_eq_true, isNewline_eq_true]
      rintro rfl
      exact h w (List.mem_append_right _ List.mem_cons_self) hb
    have hany : w.any isNewline = hasNewline w := by
      rw [Bool.eq_iff_iff, List.any_eq_true, hasNewline_eq_true]
      simp
    rw [ofWrites_concat, List.flatten_append, List.flatten_singleton, lines,
      cut_append_of_unmarked isNewline _ hlast, hany, ← lines, ← hclosed, ← hpending]
    by_cases hw : newline ∈ w
    · rw [if_pos (hasNewline_eq_true.mpr hw)]
      exact (ofWrites ws).write_of_mem hw
    · rw [if_neg (by rwa [hasNewline_eq_true])]
      exact (ofWrites ws).write_of_notMem hw

/-- The groups of some payloads hold one newline each exactly if every
payload does. -/
theorem one_newline_iff (ws : List (List Byte)) :
    (∀ c ∈ (CommandLog.ofWrites ws).closed, NewlineLast c) ↔ ∀ w ∈ ws, NewlineLast w := by
  constructor
  · intro h w hw hmem
    have hw_nl : newline ∈ w := List.mem_of_mem_dropLast hmem
    rw [← cut_lossless hasNewline ws] at hw
    rcases List.mem_append.mp hw with hw | hw
    · obtain ⟨g, hg, hwg⟩ := List.mem_flatten.mp hw
      obtain ⟨init, last, rfl, -, hinit⟩ := cut_group hasNewline ws g hg
      -- A payload with a newline is the last one of its group.
      obtain rfl : w = last := by
        rcases List.mem_append.mp hwg with hwi | hwl
        · have := hinit w hwi
          simp [hw_nl, hasNewline] at this
        · exact List.mem_singleton.mp hwl
      have hclosed : (init ++ [w]).flatten ∈ (CommandLog.ofWrites ws).closed := by
        rw [(CommandLog.ofWrites_eq_cut ws).1]
        exact List.mem_map_of_mem hg
      apply h _ hclosed
      have hne : w ≠ [] := List.ne_nil_of_mem hw_nl
      rw [List.flatten_append, List.flatten_singleton, List.dropLast_append_of_ne_nil hne]
      exact List.mem_append_right _ hmem
    · have := cut_rest hasNewline ws w hw
      simp [hw_nl, hasNewline] at this
  · intro h c hc hmem
    rw [(CommandLog.ofWrites_eq_lines h).1] at hc
    obtain ⟨body, rfl, hbody⟩ := eq_of_mem_lines hc
    rw [List.dropLast_concat] at hmem
    exact hbody hmem

/-- Two runs that wrote the same stream, each with a newline at most at the
end of a payload, leave the same entries and the same pending bytes: the last
ten lines of the stream and its open end.  The finished commands of a run are
all lines exactly if its payloads are of this kind. -/
theorem run_frames_lines (kmalloc : Kmalloc) (calls calls' : List Call) :
    ∃ events s events' s',
      Driver.loaded.run kmalloc calls = .ok (events, s) ∧ events.map Event.call = calls ∧
      Driver.loaded.run kmalloc calls' = .ok (events', s') ∧ events'.map Event.call = calls' ∧
      ((∀ g ∈ (cut hasNewline (payloads events)).1, NewlineLast g.flatten) ↔
        ∀ w ∈ payloads events, NewlineLast w) ∧
      ((payloads events).flatten = (payloads events').flatten →
        (∀ w ∈ payloads events, NewlineLast w) → (∀ w ∈ payloads events', NewlineLast w) →
        ∃ entries pending, entries = (lines (payloads events).flatten).1.rtake maxWriteOperations ∧
          pending = (lines (payloads events).flatten).2 ∧
          s.k.commands = .ok entries ∧ s'.k.commands = .ok entries ∧
          s.k.pending = .ok pending ∧ s'.k.pending = .ok pending ∧
          ∀ c ∈ entries, ∃ body, c = body ++ [newline] ∧ newline ∉ body) := by
  obtain ⟨events, s, cmds, hrun, hcalls, hready⟩ := Driver.run_loaded kmalloc calls
  obtain ⟨events', s', cmds', hrun', hcalls', hready'⟩ := Driver.run_loaded kmalloc calls'
  refine ⟨events, s, events', s', hrun, hcalls, hrun', hcalls', ?_, ?_⟩
  · rw [← one_newline_iff, (CommandLog.ofWrites_eq_cut _).1]
    simp only [List.mem_map, forall_exists_index, and_imp, forall_apply_eq_imp_iff₂]
  · intro hsame hlast hlast'
    obtain ⟨hclosed, hpending⟩ := CommandLog.ofWrites_eq_lines hlast
    obtain ⟨hclosed', hpending'⟩ := CommandLog.ofWrites_eq_lines hlast'
    refine ⟨_, _, rfl, rfl, ?_, ?_, ?_, ?_, fun c hc => eq_of_mem_lines (List.mem_of_mem_drop hc)⟩
    · rw [hready.idle.commands_eq, CommandLog.visible, hclosed]
    · rw [hready'.idle.commands_eq, CommandLog.visible, hclosed', hsame]
    · rw [hready.idle.pending_eq, hpending]
    · rw [hready'.idle.pending_eq, hpending', hsame]

/-- The payload `a\nb` is one command.  The payloads `a\n` and `b` are a
command and a pending byte. -/
theorem run_splittings_differ :
    ∃ (kmalloc : Kmalloc) (ws ws' : List (List Byte)) (events events' : List Event)
      (s s' : Driver),
      Driver.loaded.run kmalloc (ws.map fun w => .write 0 w .granting) = .ok (events, s) ∧
      Driver.loaded.run kmalloc (ws'.map fun w => .write 0 w .granting) = .ok (events', s') ∧
      payloads events = ws ∧ payloads events' = ws' ∧ ws.flatten = ws'.flatten ∧
      s.k.commands = .ok [[97, newline, 98]] ∧ s'.k.commands = .ok [[97, newline]] ∧
      s.k.pending = .ok [] ∧ s'.k.pending = .ok [98] :=
  ⟨⟨4096, by decide⟩, [[97, newline, 98]], [[97, newline], [98]], _, _, _, _, rfl, rfl, rfl, rfl,
    rfl, rfl, rfl, rfl, rfl⟩

end AesdChar

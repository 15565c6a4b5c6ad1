import ShortLinks.Command.Arguments
import ShortLinks.Proofs.Run

/-!
# Options and their variables

Whether the words of a command line are read, and which command they name, does not depend on the
environment. A variable only stands in for an option that no word gives.
-/

namespace ShortLinks.Arguments

variable {env env' : Environment} {l l' : Level} {levels : List Level} {words : List String}

/-- A level that is complete is so in any environment. -/
theorem finish_eq_ok {isInner : Bool} (h : l.finish env isInner = .ok l') (env' : Environment) :
    l.finish env' isInner = .ok l' := by
  rw [Level.finish, except_bind_eq_ok] at h ⊢
  obtain ⟨settled, hsettle, h⟩ := h
  refine ⟨settled, hsettle, ?_⟩
  dsimp only at h ⊢
  split at h
  · cases h
  · next hbelow =>
    rw [if_neg hbelow]
    exact h

/-- Words that are read are read in any environment, and to the same levels. -/
theorem readLevels_eq_ok {trailing : Bool} (h : readLevels env l trailing words = .ok levels)
    (env' : Environment) : readLevels env' l trailing words = .ok levels := by
  induction words generalizing l trailing levels with
  | nil =>
    rw [readLevels, except_bind_eq_ok] at h ⊢
    obtain ⟨l', hfinish, h⟩ := h
    exact ⟨l', finish_eq_ok hfinish env', h⟩
  | cons word words ih =>
    rw [readLevels] at h ⊢
    split at h
    · next hcommand =>
      rw [if_pos hcommand]
      split at h
      · cases h
      · next inner hinner =>
        rw [except_bind_eq_ok] at h ⊢
        obtain ⟨inners, hinners, h⟩ := h
        refine ⟨inners, ih hinners, ?_⟩
        rw [except_bind_eq_ok] at h ⊢
        obtain ⟨l', hfinish, h⟩ := h
        exact ⟨l', finish_eq_ok hfinish env', h⟩
    · next hcommand =>
      rw [if_neg hcommand]
      split at h
      · next hdashes =>
        rw [if_pos hdashes]
        exact ih h
      · next hdashes =>
        rw [if_neg hdashes]
        rw [except_bind_eq_ok] at h ⊢
        obtain ⟨l', htake, h⟩ := h
        exact ⟨l', htake, ih h⟩

/-- What the variables give that stand in for options. -/
def standIns (env : Environment) : Settings.Overrides where
  journalPath := env.lookup Flag.journal.variableName
  databaseUrl := env.lookup Flag.database.variableName
  logLevel := env.lookup Flag.level.variableName

/-- A command line that is read is read by itself, and to the same command. Each of its values for
settings is what the words give or, where they give nothing, what the variable does. -/
theorem read_alone {call : Invocation} (h : read env words = .ok call) : ∃ alone,
    read [] words = .ok alone ∧ alone.command = call.command ∧
      call.overrides.journalPath = alone.overrides.journalPath.or (standIns env).journalPath ∧
      call.overrides.databaseUrl = alone.overrides.databaseUrl.or (standIns env).databaseUrl ∧
      call.overrides.logLevel = alone.overrides.logLevel.or (standIns env).logLevel := by
  rw [read, except_bind_eq_ok] at h
  obtain ⟨levels, hlevels, h⟩ := h
  have hvalue (flag : Flag) :
      valueOf env levels flag = (valueOf [] levels flag).or (env.lookup flag.variableName) := by
    rw [valueOf, valueOf, List.lookup_nil, Option.or_none]
  dsimp only at h
  split at h
  · cases h
  · next command hcommand =>
    cases h
    let alone : Invocation :=
      { command
        owner := (valueOf [] levels .owner).getD standardOwner
        settingsFile := valueOf [] levels .config
        overrides := ⟨valueOf [] levels .journal, valueOf [] levels .database,
          valueOf [] levels .level⟩ }
    have halone : read [] words = .ok alone := by
      refine except_bind_eq_ok.2 ⟨levels, readLevels_eq_ok hlevels [], ?_⟩
      dsimp only
      rw [hcommand]
      rfl
    exact ⟨alone, halone, rfl, hvalue .journal, hvalue .database, hvalue .level⟩

end ShortLinks.Arguments

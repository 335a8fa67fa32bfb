import ModuleAtlas.CommandLine.Run

/-!
# What sessions have written

Whatever a session breaks off with, what it has written by then stays. A session that writes only when
nothing can go wrong any more has written nothing if it breaks off (`Session.Silent`), and all commands
are such sessions (`Command.silent_run`): what can go wrong comes before the first text
(`Session.Still.bind_silent`).
-/

namespace ModuleAtlas.CommandLine

namespace Session

variable {β δ : Type} {x : Session β} {f : β → Session δ}

/-- Nothing is written. -/
def Still (x : Session β) : Prop := ∀ written, (x.goOn written).2 = written

/-- Nothing has been written if the session breaks off. -/
def Silent (x : Session β) : Prop :=
  ∀ written complaint, (x.goOn written).1 = .error complaint → (x.goOn written).2 = written

theorem goOn_bind (x : Session β) (f : β → Session δ) (written : Output) :
    (x >>= f).goOn written =
      match x.goOn written with
      | (.ok b, now) => (f b).goOn now
      | (.error complaint, now) => (.error complaint, now) := by
  rw [goOn, goOn, ExceptT.run_bind, StateT.run_bind]
  rcases x.run.run written with ⟨_ | b, now⟩ <;> rfl

theorem goOn_ofExcept (y : Except Complaint β) (written : Output) :
    (MonadExcept.ofExcept y : Session β).goOn written = (y, written) := by
  cases y <;> rfl

theorem goOn_write (text written : Output) : (write text).goOn written =
    (.ok (), fun milliseconds => written milliseconds ++ text milliseconds) := rfl

theorem write_inj {text text' : Output} : write text = write text' ↔ text = text' := by
  refine ⟨fun h => funext fun milliseconds => ?_, congrArg write⟩
  have hwritten := congrArg (fun x : Session Unit => (x.goOn fun _ => "").2 milliseconds) h
  simpa only [goOn_write, String.empty_append] using hwritten

theorem still_ofExcept (y : Except Complaint β) : Still (MonadExcept.ofExcept y : Session β) :=
  fun written => by rw [goOn_ofExcept]

theorem silent_write (text : Output) : Silent (write text) := by
  intro written complaint h
  rw [goOn_write] at h
  contradiction

/-- What comes behind something that writes nothing decides what has been written. -/
theorem Still.bind_silent (hx : Still x) (hf : ∀ b, Silent (f b)) : Silent (x >>= f) := by
  intro written complaint h
  have hwritten := hx written
  rw [goOn_bind] at h ⊢
  generalize x.goOn written = outcome at h hwritten
  obtain ⟨_ | b, now⟩ := outcome
  · exact hwritten
  · obtain rfl : now = written := hwritten
    exact hf b now complaint h

end Session

open Session

variable {γ : Type}

theorem AnalyzeOptions.silent_run (o : AnalyzeOptions) (w : Surroundings γ) :
    Silent (o.run w) := by
  refine (still_ofExcept _).bind_silent fun a => ?_
  cases o.format with
  | json => exact (still_ofExcept _).bind_silent fun d => silent_write _
  | text => exact silent_write _

theorem MetricsOptions.silent_run (o : MetricsOptions) (w : Surroundings γ) :
    Silent (o.run w) :=
  (still_ofExcept _).bind_silent fun _ => silent_write _

/-- A command that breaks off has written nothing. -/
theorem Command.silent_run (c : Command) (w : Surroundings γ) : Silent (c.run w) := by
  cases c with
  | analyze o => exact o.silent_run w
  | metrics o => exact o.silent_run w

/-- If the program ends with any other code than 0, there is nothing on the standard output. -/
theorem Command.output_of_code_ne (c : Command) (w : Surroundings γ) (h : (c.ending w).code ≠ 0)
    (milliseconds : Nat) : (c.ending w).output milliseconds = "" := by
  have hsilent := c.silent_run w fun _ => ""
  revert h
  rw [Command.ending]
  generalize (c.run w).goOn (fun _ => "") = outcome at hsilent
  obtain ⟨complaint | _, output⟩ := outcome
  · exact fun _ => congrFun (hsilent complaint rfl) milliseconds
  · exact fun h => absurd rfl h

end ModuleAtlas.CommandLine

import Comp556.Foundation.Run
import Comp556.Routing.Protocol

/-!
# Runs of a router

A router handles one event of the simulator after the other, each in an environment of its own.
-/

namespace Comp556

/-- What the simulator delivers to a router. -/
inductive Event where
  | packet (port : UInt16) (packet : Packet)
  | alarm (alarm : Alarm)

namespace Router

def handle (env : Env) (r : Router) : Event → Outcome
  | .packet port packet => recv env port packet r
  | .alarm alarm => handleAlarm env r alarm

theorem final_eq {out : Router × List SysCall} {r' : Router} {calls : List SysCall}
    (h : some out = some (r', calls)) : out.1 = r' :=
  congrArg Prod.fst (Option.some.inj h)

def handleAll (r : Router) : List (Env × Event) → Option Router
  | [] => some r
  | (env, event) :: rest =>
    match handle env r event with
    | none => none
    | some (r', _) => handleAll r' rest

def EventStep (admits : Event → Prop) (r r' : Router) : Prop :=
  ∃ env event calls, admits event ∧ handle env r event = some (r', calls)

def Reaches (admits : Event → Prop) (r r' : Router) : Prop :=
  Relation.ReflTransGen (EventStep admits) r r'

theorem handleAll_reaches {admits : Event → Prop} {events : List (Env × Event)} {r r' : Router}
    (hevents : ∀ e ∈ events, admits e.2) (hrun : handleAll r events = some r') : Reaches admits r r' := by
  induction events generalizing r with
  | nil =>
    cases hrun
    exact .refl
  | cons e events ih =>
    obtain ⟨hfirst, hrest⟩ := List.forall_mem_cons.mp hevents
    simp only [handleAll] at hrun
    cases hhandle : handle e.1 r e.2 with
    | none => simp [hhandle] at hrun
    | some out =>
      rw [hhandle] at hrun
      exact .head ⟨e.1, e.2, out.2, hfirst, hhandle⟩ (ih hrest hrun)

def FromAttached (attached : UInt16 → UInt16) (numPorts port : UInt16) (packet : Packet) : Prop :=
  port < numPorts ∧ ntohs (packet.block.memory.load16 4) = attached port

instance (attached : UInt16 → UInt16) (numPorts port : UInt16) (packet : Packet) :
    Decidable (FromAttached attached numPorts port packet) :=
  inferInstanceAs (Decidable (_ ∧ _))

end Router

end Comp556

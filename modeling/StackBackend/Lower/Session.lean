import StackBackend.Lower.Lowering
import StackBackend.Scope.Step

/-!
# Sessions of lowering

One emitter can lower several parts one after the other, with operations on its scopes in between.
A step that fails keeps what it has put out.
-/
namespace StackBackend.Lower

inductive Step where
  | scope (step : Scope.Step)
  | stream (instrs : List Instruction)
  | routine (kind : Code.MethodKind) (method : Method)
  | container (definition : Class)
  | script (s : Script)

def perform (e : Emitter) (action : Emit Unit) : Scope.Answer × Emitter :=
  match action.run e with
  | .ok () e => (.done, e)
  | .error x e => (.failed x, e)

def Step.run (e : Emitter) : Step → Scope.Answer × Emitter
  | .scope step =>
    let (answer, scopes) := step.run e.scopes
    (answer, { e with scopes })
  | .stream instrs => perform e (lowerStream instrs)
  | .routine kind method => perform e (method.lower instancePath kind)
  | .container definition => perform e definition.lower
  | .script s => perform e s.lower

end StackBackend.Lower

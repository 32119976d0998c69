import FlowPlan.Error

namespace FlowPlan.Plan

mutual

/-- Checks that every node may stand over its inputs. -/
def checkConventions : Plan → Except Error Unit
  | .node t op inputs => checkInputs t.convention op.kind inputs

/-- Checks the inputs of a node, each with all that is below it, in their order. -/
def checkInputs (convention : Convention) (kind : OperatorKind) : List Plan → Except Error Unit
  | [] => .ok ()
  | p :: rest => do
    if convention.acceptsInput p.convention then
      checkConventions p
      checkInputs convention kind rest
    else .error (.broken (.inputConvention kind convention p.kind p.convention))

end

def requirePhysical (p : Plan) : Except Error Unit :=
  if p.isPhysical then .ok () else .error (.notPhysical p.kind p.convention)

end FlowPlan.Plan

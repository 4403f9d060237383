import Mathlib.Data.String.Basic

namespace NotK8s.Authz

/-!
# Field selectors

Terms between commas, a comma after a backslash apart, each of a field, an
operator and a value.  All terms have to hold.
-/

structure FieldRequirement where
  field : String
  value : String
  negated : Bool
  deriving DecidableEq

namespace FieldSelector

/-- The terms of a selector.  A backslash stays in the term, and so does the
character after it. -/
def splitFieldTerms (inSlash : Bool) : List Char -> List (List Char)
  | [] => [[]]
  | c :: rest =>
    if !inSlash && c == ',' then [] :: splitFieldTerms false rest
    else
      match splitFieldTerms (!inSlash && c == '\\') rest with
      | [] => [[c]]
      | term :: terms => (c :: term) :: terms

/-- What stands before and after the first place an operator is found. -/
def splitAt? (op : List Char) : List Char -> Option (List Char × List Char)
  | [] => if op.isEmpty then some ([], []) else none
  | c :: rest =>
    if op.isPrefixOf (c :: rest) then some ([], (c :: rest).drop op.length)
    else (splitAt? op rest).map fun parts => (c :: parts.1, parts.2)

def requirement (negated : Bool) (parts : List Char × List Char) : FieldRequirement where
  field := String.ofList parts.1
  value := String.ofList parts.2
  negated := negated

/-- The operators are tried in this order. -/
def parseFieldTerm (term : List Char) : Option FieldRequirement :=
  ((splitAt? ['!', '='] term).map (requirement true)).or
    (((splitAt? ['=', '='] term).map (requirement false)).or ((splitAt? ['='] term).map (requirement false)))

def parseFieldSelector (input : String) : Option (List FieldRequirement) :=
  if input.isEmpty then some [] else (splitFieldTerms false input.toList).mapM parseFieldTerm

def matchesFields (requirements : List FieldRequirement) (getField : String -> Option String) : Bool :=
  requirements.all fun r =>
    let equal := getField r.field == some r.value
    if r.negated then !equal else equal

/-- The fields of a Pod that may be selected on. -/
def selectableFields : List String :=
  ["metadata.name", "metadata.namespace", "spec.nodeName", "spec.restartPolicy", "spec.schedulerName",
    "spec.serviceAccountName", "spec.hostNetwork", "status.phase", "status.podIP", "status.nominatedNodeName"]

def validateFieldSelector (requirements : List FieldRequirement) : Bool :=
  requirements.all fun r => selectableFields.contains r.field

theorem getField_of_matches {requirements : List FieldRequirement} {getField : String -> Option String}
    (holds : matchesFields requirements getField = true) {r : FieldRequirement} (member : r ∈ requirements)
    (positive : r.negated = false) : getField r.field = some r.value := by
  have met := List.all_eq_true.mp holds r member
  simp only [positive, Bool.false_eq_true, if_false, beq_iff_eq] at met
  exact met

end FieldSelector
end NotK8s.Authz

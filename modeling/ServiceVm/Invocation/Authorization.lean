import ServiceVm.Invocation.Argument

/-! # Authorizing a package -/
namespace ServiceVm

/-- The code of the package's authorizer, if it was available at the lookup anchor. -/
def authorizerCode? (package : WorkPackage) (accounts : Accounts) : Option Bytes := do
  let host ← accounts[package.authCodeHost]?
  let preimage ← host.lookupAt? package.context.lookupAnchorSlot package.authCodeHash
  serviceCode? preimage

/-- Asks the authorizer of a package whether `core` may work on it. Answers the result and the gas
spent. -/
def authorize (config : Config) (package : WorkPackage) (core : UInt16) (accounts : Accounts) :
    WorkResult × UInt64 :=
  match authorizerCode? package accounts with
  | none => (.badCode, 0)
  | some code =>
    if maxAuthorizerCode < code.size then (.codeOversize, 0)
    else
      let argument := Codec.encodeFixed core.toUInt64 2
      let outcome := invokeImage config code 0 authorizationGas argument
        (.authorization ⟨package, core⟩)
      (outcome.result.toWorkResult, outcome.gasUsed)

end ServiceVm

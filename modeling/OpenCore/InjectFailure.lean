import OpenCore.InjectFrame

/-!
What a failed injection leaves behind. Before the kext is linked nothing of the
layout has changed yet; lookups may have cached entries all the same.
-/

namespace OpenCore.InjectFailure

open Base Plist PrelinkedKext KextCache PrelinkedInject InjectFrame

section Failure
variable (env : Injector)

end Failure

section Refused

def refusingContext : PrelinkedContext := sampleBoot false [sampleKextDict "a" []]

def refusedContext : PrelinkedContext :=
  (internalCachedPrelinkedKext sampleExternals refusingContext ⟨ascii "a", .caller⟩).2

theorem refused : prelinkedInjectKext (sampleInjector (samplePlist "a" [])) 1
    (sampleRequest (some "a")) refusingContext = some (.alreadyStarted, refusedContext) := rfl

end Refused

end OpenCore.InjectFailure

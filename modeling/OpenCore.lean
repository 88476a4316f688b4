import OpenCore.IndexedWalk
import OpenCore.ScanTermination
import OpenCore.KextOrigins
import OpenCore.InjectFailure
import OpenCore.StringLifetime
import OpenCore.XmlReferences
import OpenCore.RelocationRun
import OpenCore.LinkEdit
import OpenCore.MachoExpandLayout
import OpenCore.XmlChildren
import OpenCore.ParseVarsSafety
import OpenCore.MemoryMapSlots
import OpenCore.PageRange
import OpenCore.PatIndexRange
import OpenCore.AcpiParserNesting
import OpenCore.AcpiLookupSearch
import OpenCore.DevicePropertyRoundTrip
import OpenCore.FlexArrayList
import OpenCore.PeCoffCoverage
import OpenCore.KernelSlice
import OpenCore.DiskImageCoverage
import OpenCore.ParseVarsPairs
import OpenCore.SymbolLookup
import OpenCore.SymbolLayout
import OpenCore.StrippedCommands
import OpenCore.MergeOutcome
import OpenCore.CollectionRebuild
import OpenCore.CachelessClosure
import OpenCore.SmbiosAgreement
import OpenCore.BlitOutcome
import OpenCore.AttributesRebuild
import OpenCore.AllocateFromTop
import OpenCore.CustomSlide
import OpenCore.PlistBlob
import OpenCore.PlistInteger
import OpenCore.XmlEasyChild
import OpenCore.TemplateBlob
import OpenCore.TemplateList
import OpenCore.VtablePhases
import OpenCore.KextPatcher
import OpenCore.PrelinkedExclude
import OpenCore.MkextExclude
import OpenCore.AcpiRelocation
import OpenCore.AcpiPath
import OpenCore.BootArgumentsTokens
import OpenCore.DevicePathChild
import OpenCore.DevicePathNames
import OpenCore.Chunklist
import OpenCore.WordMul64
import OpenCore.ConfigSchema
import OpenCore.ApfsFletcher
import OpenCore.ApfsDriver
import OpenCore.CachelessLibraries
import OpenCore.VirtualFile
import OpenCore.TypingBuffer
import OpenCore.RsaVerifyData

import Pysa.Analysis.CfgSound
import Pysa.Analysis.ConditionalCode
import Pysa.Analysis.FixpointSound
import Pysa.Analysis.MethodResolutionOrder
import Pysa.Analysis.ModuleGlobals
import Pysa.Analysis.ModuleUpdatesComplete
import Pysa.Analysis.ScopeStack
import Pysa.Analysis.TypeConstraintsRun
import Pysa.Analysis.TypeInfo
import Pysa.Analysis.WeakTopologicalOrderTotal
import Pysa.Ast.LocationInsensitiveOrder
import Pysa.Ast.NegationNormalForm
import Pysa.DataStructures.BitSetPatriciaCorrect
import Pysa.Domains.BucketedElementSet
import Pysa.Domains.InvertedSet
import Pysa.Domains.ProductDomain
import Pysa.Domains.TreePartition
import Pysa.Domains.TreeShapeEssential
import Pysa.Environment.Incremental
import Pysa.Heap.FirstClassWithKeysProcesses
import Pysa.Heap.HashTableAgreement
import Pysa.Heap.HeapRefines
import Pysa.Interprocedural.ClassHierarchyDescent
import Pysa.Interprocedural.ClassHierarchyJoin
import Pysa.Interprocedural.ExpressionIdentifier
import Pysa.Interprocedural.FixpointWorklist
import Pysa.Interprocedural.ParameterTargets
import Pysa.Interprocedural.PyreflyTypes
import Pysa.Server.BuildSystem
import Pysa.Service.MapReduce
import Pysa.Service.SchedulerPolicy
import Pysa.Taint.ApplySanitizers
import Pysa.Taint.Breadcrumbs
import Pysa.Taint.CallTargetResults
import Pysa.Taint.ClassIntervalsExact
import Pysa.Taint.DictUpdate
import Pysa.Taint.ExtraTraces
import Pysa.Taint.ModelQueryCache
import Pysa.Taint.ObscureTito
import Pysa.Taint.PartialSinks
import Pysa.Taint.SanitizeSound
import Pysa.Taint.SequenceAssignment
import Pysa.Taint.TaintReporting

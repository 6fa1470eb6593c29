import Stg.SccSearch
import Stg.Order
import Stg.Reorder
import Stg.Graph
import Stg.Result
import Stg.Resolve
import Stg.PlanRefines
import Stg.Child
import Stg.Trace
import Stg.Mirror
import Stg.Transitive
import Stg.Copies
import Stg.Representation
import Stg.Members
import Stg.SymbolMaps
import Stg.Pairing
import Stg.Unheld
import Stg.Options
import Stg.CRCChanges
import Stg.OffsetLimits
import Stg.Sessions
import Stg.Integers
import Stg.SymbolGroups
import Stg.TypeNames
import Stg.Lib.Entries
import Stg.AbiXml.Cycles
import Stg.AbiXml.Isomorphic
import Stg.AbiXml.Aliases
import Stg.MovedReports
import Stg.SharedNames
import Stg.Btf.Accepts
import Stg.Btf.Encode
import Stg.Btf.Linked
import Stg.Btf.Renumbered
import Stg.Relaid

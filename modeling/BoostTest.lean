import BoostTest.Lib.Linearization
import BoostTest.Lib.Orbit
import BoostTest.Lib.Potential
import BoostTest.Lockfree.Order
import BoostTest.Queue.Budget
import BoostTest.Queue.CondiFailure
import BoostTest.Queue.CondiOvertaking
import BoostTest.Queue.CondiWorkload
import BoostTest.Queue.Linearization
import BoostTest.Queue.RingDelay
import BoostTest.Queue.SemCapacity
import BoostTest.Queue.SemClear
import BoostTest.Queue.SemThrow
import BoostTest.Queue.SemWorkload
import BoostTest.Random.Equidistribution
import BoostTest.Random.Linear
import BoostTest.Random.Observation
import BoostTest.Random.Printed
import BoostTest.Random.Seed
import BoostTest.Random.SeedValue
